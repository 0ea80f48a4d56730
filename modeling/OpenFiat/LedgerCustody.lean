import OpenFiat.ChainSteps

/-!
# Custody of the programs' token accounts

The programs open their token accounts at derived addresses, each with a fixed
derived owner, and nobody else can open an account there. A transfer signed by a
wallet therefore never takes tokens out of one, and an instruction of one program
moves tokens out of the accounts of that program only. `step_effect` says once, for
every instruction, which accounts may pay and which records are written: what an
instruction leaves alone is read off its `purses` and `writes`.
-/
namespace OpenFiat.LedgerCustody
open GuardedResult TokenLedger ProgramAddress
open ChainWorld EscrowFunds EscrowLiquidity EscrowDisputes StakingInstructions
open TransactionRuns ChainSteps TokenLedger.Ledger

variable {P : Platform} {w w' : World} {ix : Instruction}

theorem step_ok : step P w ix = .ok w' ↔ ix.decodes = true ∧ dispatch P w ix = .ok w' := by
  simp [step]

theorem avoids_step {bad : Failure → Prop} (hbad : Unchecked bad)
    (h : Avoids bad (dispatch P w ix)) : Avoids bad (step P w ix) := by
  simp only [step, avoids_bind, avoids_require, hbad.anchor, false_imp_iff, true_and]
  exact fun _ _ => h

/-- The mint and owner under which an account at a derived address is opened. -/
def HeaderOk : Pubkey → Pubkey × Pubkey → Prop
  | .liquidityVaultTokens merchant mint, h => h = (mint, .liquidityVault merchant mint)
  | .tradeEscrowTokens reservationId, h => h.2 = .tradeEscrow reservationId
  | .arbitrationPool, h => h.2 = .feeConfig
  | .stakeVault, h => h.2 = .stakingConfig
  | .rewardsVault, h => h.2 = .stakingConfig
  | _, _ => True

def Custodial (L : Ledger Pubkey) : Prop := ∀ k h, L.header k = some h → HeaderOk k h

/-- Accounts are only added, each under the right owner. -/
def HeadersExtend (L L' : Ledger Pubkey) : Prop :=
  ∀ k, L'.header k = L.header k ∨ (L.header k = none ∧ ∃ h, L'.header k = some h ∧ HeaderOk k h)

theorem HeadersExtend.refl (L : Ledger Pubkey) : HeadersExtend L L := fun _ => .inl rfl

variable {L L' : Ledger Pubkey} {k mint source : Pubkey} {n : ℕ} {held : Pubkey → Prop}

theorem HeadersExtend.trans {L'' : Ledger Pubkey} (h : HeadersExtend L L')
    (h' : HeadersExtend L' L'') : HeadersExtend L L'' := by
  intro k
  rcases h' k with h'k | ⟨hnone, a, ha, hok⟩
  · rw [h'k]
    exact h k
  · rcases h k with hk | ⟨-, b, hb, -⟩
    · exact .inr ⟨hk ▸ hnone, a, ha, hok⟩
    · rw [hb] at hnone
      cases hnone

theorem headersExtend_of_create {owner : Pubkey} (h : L.createAccount k mint owner = .ok L')
    (hok : HeaderOk k (mint, owner)) : HeadersExtend L L' := by
  intro j
  rw [header_createAccount h]
  split_ifs with hj
  · subst hj
    exact .inr ⟨(createAccount_ok.mp h).1, _, rfl, hok⟩
  · exact .inl rfl

theorem HeadersExtend.custodial (h : HeadersExtend L L') (hc : Custodial L) : Custodial L' := by
  intro k a ha
  rcases h k with hk | ⟨-, b, hb, hok⟩
  · exact hc k a (hk ▸ ha)
  · rw [hb] at ha
    exact Option.some.inj ha ▸ hok

theorem headerOk_of_external (hk : externalAddress k = true) (h : Pubkey × Pubkey) :
    HeaderOk k h := by
  cases k <;> first | exact trivial | cases hk

/-- The token accounts that the programs pay from, by kind. -/
inductive Purse where
  | vaults | escrows | pool | stakes | rewards
deriving DecidableEq, Repr

def purseOf : Pubkey → Option Purse
  | .liquidityVaultTokens _ _ => some .vaults
  | .tradeEscrowTokens _ => some .escrows
  | .arbitrationPool => some .pool
  | .stakeVault => some .stakes
  | .rewardsVault => some .rewards
  | _ => none

def purses : Instruction → List Purse
  | .withdrawLiquidity .. | .chargeAdListingFee .. | .fundTradeEscrow .. | .openDisputeCase ..
  | .topUpArbitrationDeposit .. => [.vaults]
  | .releaseEscrow .. | .cancelReservation .. | .expireReservation .. => [.escrows]
  | .executeDisputeOutcome _ => [.escrows, .pool]
  | .claimArbitrationReward .. => [.pool]
  | .withdrawUnstaked .. | .slash .. | .recoverStakeShortfall _ => [.stakes]
  | .claimRewards .. => [.rewards]
  | _ => []

/-- The records of the two programs. -/
inductive Part where
  | fees | vaults | escrows | cases | claims | config | stakes | receipts
deriving DecidableEq, Repr

def writes : Instruction → List Part
  | .initializeFeeConfig .. | .updateFeeConfig .. => [.fees]
  | .createLiquidityVault .. | .depositLiquidity .. | .withdrawLiquidity .. | .reserveLiquidity ..
  | .chargeAdListingFee .. => [.vaults]
  | .createTradeEscrow .. | .approveSettlement .. => [.escrows]
  | .fundTradeEscrow .. | .releaseEscrow .. | .cancelReservation .. | .expireReservation .. =>
    [.vaults, .escrows]
  | .openDisputeCase .. => [.vaults, .escrows, .cases, .claims]
  | .topUpArbitrationDeposit .. => [.vaults, .cases]
  | .absorbStakeRecovery .. => [.vaults, .claims]
  | .commitDisputeVote .. | .revealDisputeVote .. | .claimArbitrationReward .. => [.cases]
  | .executeDisputeOutcome _ => [.vaults, .escrows, .cases]
  | .initializeStakingConfig .. | .updateStakingConfig .. | .migrateStakingConfig .. => [.config]
  | .initializeStakeAccount .. | .stake .. | .requestUnstake .. | .withdrawUnstaked .. | .slash ..
  | .distributeReward .. | .claimRewards .. | .migrateStakeAccount .. => [.stakes]
  | .recoverStakeShortfall _ => [.stakes, .receipts]
  | _ => []

def Part.Same (w w' : World) : Part → Prop
  | .fees => w'.feeConfig = w.feeConfig
  | .vaults => w'.liquidityVaults = w.liquidityVaults
  | .escrows => w'.tradeEscrows = w.tradeEscrows
  | .cases => w'.disputeCases = w.disputeCases
  | .claims => w'.recoveryClaims = w.recoveryClaims
  | .config => w'.stakingConfig = w.stakingConfig
  | .stakes => w'.stakeAccounts = w.stakeAccounts
  | .receipts => w'.recoveryReceipts = w.recoveryReceipts

/-- The world `w'` with the records of `w` except for the written ones. -/
def overwritten (parts : List Part) (w w' : World) : World :=
  { w' with
    feeConfig := bif parts.contains .fees then w'.feeConfig else w.feeConfig
    liquidityVaults := bif parts.contains .vaults then w'.liquidityVaults else w.liquidityVaults
    tradeEscrows := bif parts.contains .escrows then w'.tradeEscrows else w.tradeEscrows
    disputeCases := bif parts.contains .cases then w'.disputeCases else w.disputeCases
    recoveryClaims := bif parts.contains .claims then w'.recoveryClaims else w.recoveryClaims
    stakingConfig := bif parts.contains .config then w'.stakingConfig else w.stakingConfig
    stakeAccounts := bif parts.contains .stakes then w'.stakeAccounts else w.stakeAccounts
    recoveryReceipts :=
      bif parts.contains .receipts then w'.recoveryReceipts else w.recoveryReceipts }

/-- A wallet's account, or one of the given kinds. -/
def Payer (kinds : List Purse) (L : Ledger Pubkey) (k : Pubkey) : Prop :=
  (∃ mint n, L.header k = some (mint, .wallet n)) ∨ ∃ purse ∈ kinds, purseOf k = some purse

/-- Accounts are added under the right owner, and only the named ones pay. -/
structure Pays (kinds : List Purse) (L L' : Ledger Pubkey) : Prop where
  headers : HeadersExtend L L'
  kept : ∀ held : Pubkey → Prop, (∀ k, Payer kinds L k → ¬ held k) → Ledger.Kept held L L'

structure Effect (w : World) (ix : Instruction) (w' : World) : Prop where
  pays : Pays (purses ix) w.tokens w'.tokens
  frame : overwritten (writes ix) w w' = w'

namespace Pays
variable {kinds : List Purse} {L L' : Ledger Pubkey}

theorem refl (L : Ledger Pubkey) : Pays kinds L L := ⟨.refl L, fun _ _ => .refl L⟩

theorem moved {ms : List (Transfer Pubkey)} (h : Ledger.Moved ms L L')
    (hs : ∀ m ∈ ms, Payer kinds L m.source) : Pays kinds L L' :=
  ⟨fun k => .inl (h.header k), fun _ hheld => h.kept fun m hm => hheld _ (hs m hm)⟩

theorem single {target : Pubkey} (h : Ledger.Moved [⟨source, target, n⟩] L L')
    (hs : Payer kinds L source) : Pays kinds L L' :=
  moved h fun _ hm => List.mem_singleton.mp hm ▸ hs

theorem payments {shares : List (Pubkey × ℕ)}
    (h : Ledger.Moved (payments source shares) L L') (hs : Payer kinds L source) :
    Pays kinds L L' :=
  moved h fun _ hm => source_of_mem_payments hm ▸ hs

theorem created {owner : Pubkey} (h : L.createAccount k mint owner = .ok L')
    (hok : HeaderOk k (mint, owner)) : Pays kinds L L' :=
  ⟨headersExtend_of_create h hok, fun _ _ => kept_createAccount h⟩

end Pays

theorem payer_wallet {kinds : List Purse} (h : L.header k = some (mint, .wallet n)) :
    Payer kinds L k := .inl ⟨mint, n, h⟩

theorem payer_own {purse : Purse} {kinds : List Purse} (h : purseOf k = some purse) :
    Payer (purse :: kinds) L k :=
  .inr ⟨purse, List.mem_cons_self, h⟩

theorem closesReservation_effect {id : ℕ} (hpurses : purses ix = [.escrows])
    (hwrites : writes ix = [.vaults, .escrows]) (h : ClosesReservation w id w') :
    Effect w ix w' := by
  obtain ⟨e, v, L, v', -, rfl, -, -, -, hr, rfl⟩ := h
  refine ⟨?_, hwrites ▸ rfl⟩
  rw [hpurses]
  rcases returnToSeller_ok hr with ⟨-, hu⟩ | ⟨-, rfl, -⟩
  · have hp := unwindFundedTradeEscrow_paidOut hu
    exact .moved hp.moved fun m hm => payer_own (hp.source m hm ▸ rfl)
  · exact .refl _

theorem step_effect (h : step P w ix = .ok w') : Effect w ix w' := by
  obtain ⟨-, h⟩ := step_ok.mp h
  cases ix with
  | initializeFeeConfig =>
    obtain ⟨-, _, -, rfl⟩ := initializeFeeConfig_ok h
    exact ⟨.refl _, rfl⟩
  | updateFeeConfig =>
    obtain ⟨_, _, -, -, -, rfl⟩ := updateFeeConfig_ok h
    exact ⟨.refl _, rfl⟩
  | initializeArbitrationPool =>
    obtain ⟨L, hL, rfl⟩ := initializeArbitrationPool_ok h
    exact ⟨.created hL rfl, rfl⟩
  | publishArbitratorPoolSize =>
    obtain ⟨_, rfl⟩ := publishArbitratorPoolSize_ok h
    exact ⟨.refl _, rfl⟩
  | createLiquidityVault =>
    obtain ⟨L, -, hL, rfl⟩ := createLiquidityVault_ok h
    exact ⟨.created hL rfl, rfl⟩
  | depositLiquidity =>
    obtain ⟨v, L, -, hs, hL, -, -, rfl⟩ := depositLiquidity_ok h
    exact ⟨.single hL (payer_wallet hs), rfl⟩
  | withdrawLiquidity =>
    obtain ⟨v, L, -, hL, -, -, rfl⟩ := withdrawLiquidity_ok h
    exact ⟨.single hL (payer_own rfl), rfl⟩
  | reserveLiquidity =>
    obtain ⟨v, -, -, rfl⟩ := reserveLiquidity_ok h
    exact ⟨.refl _, rfl⟩
  | chargeAdListingFee =>
    obtain ⟨v, L, c, s, -, -, hL, -, -, rfl⟩ := chargeAdListingFee_ok h
    exact ⟨.payments hL (payer_own rfl), rfl⟩
  | createTradeEscrow =>
    obtain ⟨v, L, t, -, -, -, hL, rfl⟩ := createTradeEscrow_ok h
    exact ⟨.created hL rfl, rfl⟩
  | fundTradeEscrow =>
    obtain ⟨v, e, L, -, -, -, -, -, -, -, hL, rfl⟩ := fundTradeEscrow_ok h
    exact ⟨.single hL (payer_own rfl), rfl⟩
  | approveSettlement =>
    obtain ⟨e, -, -, rfl⟩ := approveSettlement_ok h
    exact ⟨.refl _, rfl⟩
  | releaseEscrow =>
    obtain ⟨e, v, c, L, e', v', -, -, -, -, -, -, -, -, hr, rfl⟩ := releaseEscrow_ok h
    obtain ⟨ms, hp⟩ := releaseTradeEscrowFunds_paidOut hr
    exact ⟨.moved hp.moved fun m hm => payer_own (hp.source m hm ▸ rfl), rfl⟩
  | cancelReservation =>
    exact closesReservation_effect rfl rfl (cancelReservation_ok h)
  | expireReservation =>
    exact closesReservation_effect rfl rfl (expireReservation_ok h)
  | openDisputeCase =>
    obtain ⟨e, fees, v, L, claim, seed, -, -, -, -, -, -, -, -, -, -, hL, -, -, rfl⟩ :=
      openDisputeCase_ok h
    exact ⟨.payments hL (payer_own rfl), rfl⟩
  | topUpArbitrationDeposit =>
    obtain ⟨c, e, v, L, n, -, -, -, -, -, -, -, -, hL, -, -, rfl⟩ := topUpArbitrationDeposit_ok h
    exact ⟨.single hL (payer_own rfl), rfl⟩
  | absorbStakeRecovery =>
    obtain ⟨c, r, v, n, -, -, -, -, -, -, -, rfl⟩ := absorbStakeRecovery_ok h
    exact ⟨.refl _, rfl⟩
  | commitDisputeVote =>
    obtain ⟨c, -, -, -, -, -, -, rfl⟩ := commitDisputeVote_ok h
    exact ⟨.refl _, rfl⟩
  | revealDisputeVote =>
    obtain ⟨c, i, weight, -, -, -, -, -, -, rfl⟩ := revealDisputeVote_ok h
    exact ⟨.refl _, rfl⟩
  | executeDisputeOutcome =>
    obtain ⟨c, e, v, ov, fees, d, -, -, -, -, -, -, -, -, -, -, -, -, -, -, hd, rfl⟩ :=
      executeDisputeOutcome_ok h
    obtain ⟨ms, hm, hs⟩ := hd.moved
    refine ⟨.moved hm fun m hm => ?_, rfl⟩
    rcases hs m hm with hs | hs
    · exact .inr ⟨.pool, List.mem_cons_of_mem _ List.mem_cons_self, hs ▸ rfl⟩
    · exact payer_own (hs ▸ rfl)
  | claimArbitrationReward =>
    obtain ⟨c, o, i, L, -, -, -, -, -, -, -, -, -, hL, rfl⟩ := claimArbitrationReward_ok h
    exact ⟨.single hL (payer_own rfl), rfl⟩
  | initializeStakingConfig =>
    obtain ⟨c, L, L', -, hL, hL', -, -, rfl⟩ := initializeStakingConfig_ok h
    refine ⟨⟨(headersExtend_of_create hL rfl).trans (headersExtend_of_create hL' rfl), ?_⟩, rfl⟩
    exact fun _ _ => (kept_createAccount hL).trans (kept_createAccount hL')
  | updateStakingConfig =>
    obtain ⟨_, _, -, -, -, rfl⟩ := updateStakingConfig_ok h
    exact ⟨.refl _, rfl⟩
  | initializeStakeAccount =>
    obtain ⟨-, rfl⟩ := initializeStakeAccount_ok h
    exact ⟨.refl _, rfl⟩
  | stake =>
    obtain ⟨c, s, L, age, -, -, hs, hL, -, -, rfl⟩ := stake_ok h
    exact ⟨.single hL (payer_wallet hs), rfl⟩
  | requestUnstake =>
    obtain ⟨s, r, -, -, -, -, rfl⟩ := requestUnstake_ok h
    exact ⟨.refl _, rfl⟩
  | withdrawUnstaked =>
    obtain ⟨c, s, L, -, -, -, -, -, -, hL, rfl⟩ := withdrawUnstaked_ok h
    exact ⟨.single hL (payer_own rfl), rfl⟩
  | slash =>
    obtain ⟨c, s, L, -, -, -, hL, -, rfl⟩ := slash_ok h
    exact ⟨.payments hL (payer_own rfl), rfl⟩
  | recoverStakeShortfall =>
    obtain ⟨c, s, owed, due, L, -, -, -, -, -, -, -, hL, rfl⟩ := recoverStakeShortfall_ok h
    exact ⟨.single hL (payer_own rfl), rfl⟩
  | distributeReward =>
    obtain ⟨s, -, rfl⟩ := distributeReward_ok h
    exact ⟨.refl _, rfl⟩
  | claimRewards =>
    obtain ⟨s, L, -, hL, rfl⟩ := claimRewards_ok h
    exact ⟨.single hL (payer_own rfl), rfl⟩
  | fundRewardsVault =>
    obtain ⟨c, L, hs, hL, rfl⟩ := fundRewardsVault_ok h
    exact ⟨.single hL (payer_wallet hs), rfl⟩
  | migrateStakeAccount =>
    obtain ⟨s, age, -, -, rfl⟩ := migrateStakeAccount_ok h
    exact ⟨.refl _, rfl⟩
  | migrateStakingConfig =>
    obtain ⟨c, periods, -, rfl⟩ := migrateStakingConfig_ok h
    exact ⟨.refl _, rfl⟩
  | advanceClock | setBan =>
    cases h
    exact ⟨.refl _, rfl⟩
  | openTokenAccount =>
    simp only [dispatch, bind_ok, require_ok, invoke_ok, pure_ok, exists_const] at h
    obtain ⟨hext, L, hL, rfl⟩ := h
    exact ⟨.created hL (headerOk_of_external hext _), rfl⟩
  | donate =>
    cases h
    exact ⟨⟨fun k => .inl (header_credit _ _ _ _), fun _ _ => kept_credit _ _ _⟩, rfl⟩
  | spend =>
    simp only [dispatch, bind_ok, invoke_ok, pure_ok] at h
    obtain ⟨L, hL, rfl⟩ := h
    exact ⟨.single (moved_transfer hL) (payer_wallet (transfer_ok.mp hL).2.1), rfl⟩

theorem step_headers (h : step P w ix = .ok w') : HeadersExtend w.tokens w'.tokens :=
  (step_effect h).pays.headers

/-- What an instruction does not write stays. -/
theorem step_same (h : step P w ix = .ok w') (part : Part)
    (hpart : (writes ix).contains part = false) : part.Same w w' := by
  have hframe := (step_effect h).frame
  rw [overwritten] at hframe
  cases part <;> rw [Part.Same, ← hframe] <;> simp only [hpart, cond_false]

theorem purseOf_wallet (h : HeaderOk k (mint, .wallet n)) : purseOf k = none := by
  cases k <;> first | rfl | cases h

/-- Accounts of a kind that an instruction does not pay from lose nothing. -/
theorem step_kept (hc : Custodial w.tokens) (h : step P w ix = .ok w')
    (hheld : ∀ k, held k → ∃ purse, purseOf k = some purse ∧ (purses ix).contains purse = false) :
    Ledger.Kept held w.tokens w'.tokens := by
  refine (step_effect h).pays.kept held fun k hpayer hk => ?_
  obtain ⟨purse, hpurse, hnot⟩ := hheld k hk
  rcases hpayer with ⟨mint, n, hwallet⟩ | ⟨purse', hmem, hpurse'⟩
  · rw [purseOf_wallet (hc k _ hwallet)] at hpurse
    cases hpurse
  · obtain rfl := Option.mem_unique hpurse hpurse'
    rw [List.contains_iff_mem.mpr hmem] at hnot
    cases hnot

/-- An account of a wallet is none of the programs' accounts. -/
theorem ne_of_wallet (hc : Custodial L) {k' : Pubkey} (h : L.header k = some (mint, .wallet n))
    (hk' : (purseOf k').isSome = true) : k ≠ k' := by
  rintro rfl
  rw [purseOf_wallet (hc k _ h)] at hk'
  cases hk'

theorem kept_single {target : Pubkey} (h : Ledger.Moved [⟨source, target, n⟩] L L')
    (hs : ¬ held source) : Ledger.Kept held L L' := by
  refine h.kept fun m hm => ?_
  rw [List.mem_singleton.mp hm]
  exact hs

theorem custodial_of_genesis (h : Genesis w) : Custodial w.tokens :=
  fun k a ha => headerOk_of_external (h.tokens k (Option.isSome_of_eq_some ha)) a

theorem run_headers (w : World) (txs : List Instruction) :
    HeadersExtend w.tokens (run (step P) w txs).tokens := by
  refine run_relation (R := fun v v' : World => HeadersExtend v.tokens v'.tokens) ?_ ?_ ?_ w txs
  · exact fun v => .refl v.tokens
  · exact fun _ _ _ h h' => h.trans h'
  · exact fun _ _ _ h => step_headers h

theorem run_custodial (h : Genesis w) (txs : List Instruction) :
    Custodial (run (step P) w txs).tokens :=
  run_invariant_always (I := fun w => Custodial w.tokens)
    (fun _ _ _ hc hs => (step_headers hs).custodial hc) (custodial_of_genesis h) txs

end OpenFiat.LedgerCustody
