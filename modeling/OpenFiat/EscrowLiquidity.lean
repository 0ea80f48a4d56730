import OpenFiat.EscrowFunds

/-!
# Liquidity and settlement instructions of the escrow program

The instructions that configure fees, fill and empty a merchant's liquidity
vault, and take a trade escrow from its creation to its end outside a dispute.
Each handler first loads its accounts and tests their constraints in the order
of the account list, then runs the body of the source handler.
-/
namespace OpenFiat.EscrowLiquidity
open GuardedResult TokenLedger ProgramAddress EscrowAccounts ChainWorld EscrowFunds

structure FeeParams where
  adListingFee : ℕ
  disputeFilingFee : ℕ
  settlementFeeBps : ℕ
  devTreasuryBps : ℕ
  ecosystemTreasuryBps : ℕ
  infraTreasuryBps : ℕ
  emergencyReserveBps : ℕ
  timeoutSecs : ℤ

def FeeParams.splitTotal (p : FeeParams) : ℕ :=
  p.devTreasuryBps + p.ecosystemTreasuryBps + p.infraTreasuryBps + p.emergencyReserveBps

structure Treasuries where
  dev : Pubkey
  ecosystem : Pubkey
  infra : Pubkey
  emergency : Pubkey

def FeeParams.toConfig (p : FeeParams) (admin : Pubkey) (t : Treasuries)
    (minArbitratorStakeAgeSecs : ℤ) (arbitratorSortitionBps : ℕ) (settlementMints : List Pubkey)
    (hbps : p.settlementFeeBps ≤ bpsDenominator) (hsplit : p.splitTotal = bpsDenominator)
    (hlength : settlementMints.length ≤ maxSettlementMints) : FeeConfig where
  admin := admin
  __ := p
  devTreasury := t.dev
  ecosystemTreasury := t.ecosystem
  infraTreasury := t.infra
  emergencyReserve := t.emergency
  minArbitratorStakeAgeSecs := minArbitratorStakeAgeSecs
  arbitratorSortitionBps := arbitratorSortitionBps
  settlementMints := settlementMints
  settlementFeeBps_le := hbps
  split_eq := hsplit
  settlementMints_length_le := hlength

section Handlers
variable (w : World)

/-- The arbitrator gates start switched off and the allowlist populated. -/
def initializeFeeConfig (admin : Pubkey) (p : FeeParams) (t : Treasuries) :
    Except Failure World := do
  require w.feeConfig.isNone (.anchor .accountInUse)
  let hbps ← ensure (p.settlementFeeBps ≤ bpsDenominator) (.escrow .invalidFeeBps)
  let hsplit ← ensure (p.splitTotal = bpsDenominator) (.escrow .invalidFeeSplit)
  require (0 < p.timeoutSecs) (.escrow .invalidTimeout)
  let config := p.toConfig admin t 0 0 defaultSettlementMints hbps.down hsplit.down (by decide)
  return { w with feeConfig := some config }

def updateFeeConfig (admin mint : Pubkey) (p : FeeParams) (t : Treasuries)
    (minArbitratorStakeAgeSecs : ℤ) (arbitratorSortitionBps : ℕ) (settlementMints : List Pubkey) :
    Except Failure World := do
  let c ← loadFeeConfig w
  let dev ← loadTokenAccount w t.dev
  let ecosystem ← loadTokenAccount w t.ecosystem
  let infra ← loadTokenAccount w t.infra
  let emergency ← loadTokenAccount w t.emergency
  require (c.admin = admin) (.escrow .unauthorized)
  require (dev.mint = mint ∧ ecosystem.mint = mint ∧ infra.mint = mint ∧ emergency.mint = mint)
    (.anchor .constraintRaw)
  let hbps ← ensure (p.settlementFeeBps ≤ bpsDenominator) (.escrow .invalidFeeBps)
  let hsplit ← ensure (p.splitTotal = bpsDenominator) (.escrow .invalidFeeSplit)
  require (0 < p.timeoutSecs) (.escrow .invalidTimeout)
  require (0 ≤ minArbitratorStakeAgeSecs) (.escrow .invalidStakeAge)
  require (arbitratorSortitionBps < bpsDenominator) (.escrow .invalidSortitionThreshold)
  require (settlementMints ≠ []) (.escrow .emptySettlementMintList)
  let hlength ← ensure (settlementMints.length ≤ maxSettlementMints)
    (.escrow .settlementMintListFull)
  require (.fixed .default ∉ settlementMints ∧ settlementMints.Nodup)
    (.escrow .invalidSettlementMint)
  let config := p.toConfig c.admin t minArbitratorStakeAgeSecs arbitratorSortitionBps
    settlementMints hbps.down hsplit.down hlength.down
  return { w with feeConfig := some config }

def initializeArbitrationPool (admin mint : Pubkey) : Except Failure World := do
  let c ← loadFeeConfig w
  let tokens ← invoke (w.tokens.createAccount .arbitrationPool mint .feeConfig)
  require (admin = c.admin) (.escrow .unauthorized)
  return { w with tokens }

def publishArbitratorPoolSize (admin : Pubkey) (eligibleArbitrators : ℕ) :
    Except Failure World := do
  let c ← loadFeeConfig w
  require (admin = c.admin) (.escrow .unauthorized)
  return { w with arbitrationPolicy := some ⟨c.admin, eligibleArbitrators, w.clock⟩ }

/-- A vault opens in an allowed settlement mint or in the mint of the arbitration
pool, which must then exist. -/
def checkVaultMint (c : FeeConfig) (mint : Pubkey) : Except Failure Unit :=
  if c.allowsSettlementMint mint then .ok ()
  else do
    let pool ← load (w.tokens.accounts.lookup .arbitrationPool)
      (.escrow .arbitrationPoolNotInitialized)
    require (mint = pool.mint) (.escrow .settlementMintNotAllowed)

def createLiquidityVault (merchant mint : Pubkey) : Except Failure World := do
  let c ← loadFeeConfig w
  require (w.liquidityVaults.lookup (merchant, mint) = none) (.anchor .accountInUse)
  let tokens ← invoke (w.tokens.createAccount (.liquidityVaultTokens merchant mint) mint
    (.liquidityVault merchant mint))
  checkVaultMint w c mint
  return { w with tokens }.setLiquidityVault merchant mint
    { merchant, mint, total := 0, reserved := 0, available := 0, settled := 0
      pendingSettlement := 0 }

def depositLiquidity (merchant mint source : Pubkey) (amount : ℕ) : Except Failure World := do
  let v ← loadLiquidityVault w merchant mint
  let _ ← loadTokenAccount w (.liquidityVaultTokens merchant mint)
  let src ← loadTokenAccount w source
  require (v.merchant = merchant) (.anchor .constraintHasOne)
  require (v.mint = mint) (.anchor .constraintRaw)
  require (src.mint = mint) (.anchor .constraintRaw)
  require (w.banned merchant = false) (.escrow .walletBanned)
  let tokens ← invoke (w.tokens.transfer source mint (.liquidityVaultTokens merchant mint) merchant
    amount)
  let total ← checkedAdd 64 (.escrow .overflow) v.total amount
  let available ← checkedAdd 64 (.escrow .overflow) v.available amount
  return { w with tokens }.setLiquidityVault merchant mint { v with total, available }

def withdrawLiquidity (merchant mint target : Pubkey) (amount : ℕ) : Except Failure World := do
  let v ← loadLiquidityVault w merchant mint
  let _ ← loadTokenAccount w (.liquidityVaultTokens merchant mint)
  let dst ← loadTokenAccount w target
  require (v.merchant = merchant) (.anchor .constraintHasOne)
  require (v.mint = mint) (.anchor .constraintRaw)
  require (dst.mint = mint) (.anchor .constraintRaw)
  require (target ≠ .liquidityVaultTokens merchant mint)
    (.anchor .constraintDuplicateMutableAccount)
  require (amount ≤ v.available) (.escrow .insufficientAvailableLiquidity)
  let tokens ← invoke (w.tokens.transfer (.liquidityVaultTokens merchant mint) mint target
    (.liquidityVault merchant mint) amount)
  let available ← checkedSub (.panicked .subtraction) v.available amount
  let total ← checkedSub (.escrow .overflow) v.total amount
  return { w with tokens }.setLiquidityVault merchant mint { v with available, total }

def reserveLiquidity (merchant mint : Pubkey) (amount : ℕ) : Except Failure World := do
  let v ← loadLiquidityVault w merchant mint
  let c ← loadFeeConfig w
  require (v.mint = mint) (.anchor .constraintSeeds)
  require (v.merchant = merchant) (.anchor .constraintHasOne)
  require (w.banned merchant = false) (.escrow .walletBanned)
  require (c.allowsSettlementMint v.mint) (.escrow .settlementMintNotAllowed)
  require (amount ≤ v.available) (.escrow .insufficientAvailableLiquidity)
  let available ← checkedSub (.panicked .subtraction) v.available amount
  let reserved ← checkedAdd 64 (.escrow .overflow) v.reserved amount
  return w.setLiquidityVault merchant mint { v with available, reserved }

def chargeAdListingFee (merchant mint : Pubkey) : Except Failure World := do
  let c ← loadFeeConfig w
  let v ← loadLiquidityVault w merchant mint
  let _ ← loadTokenAccount w (.liquidityVaultTokens merchant mint)
  let treasuries ← loadTreasuries w c
  require (v.merchant = merchant) (.anchor .constraintHasOne)
  require (v.mint = mint) (.anchor .constraintRaw)
  require (∀ a ∈ treasuries, a.mint = mint) (.anchor .constraintRaw)
  require (.liquidityVaultTokens merchant mint :: treasuryAccounts c).Nodup
    (.anchor .constraintDuplicateMutableAccount)
  require (0 < c.adListingFee) (.escrow .noFeeConfigured)
  require (c.adListingFee ≤ v.available) (.escrow .insufficientAvailableLiquidity)
  let shares ← raiseEscrow (splitFeeFourWays c c.adListingFee)
  let tokens ← invoke (w.tokens.payEach (.liquidityVaultTokens merchant mint) mint
    (.liquidityVault merchant mint) (treasuryPayments c shares))
  let available ← checkedSub (.escrow .overflow) v.available c.adListingFee
  let total ← checkedSub (.escrow .overflow) v.total c.adListingFee
  return { w with tokens }.setLiquidityVault merchant mint { v with available, total }

/-- The reserved counter is compared with the amount and not reduced by it. -/
def createTradeEscrow (merchant buyer mint : Pubkey) (reservationId amount : ℕ)
    (timeoutSecs : ℤ) : Except Failure World := do
  let c ← loadFeeConfig w
  let v ← loadLiquidityVault w merchant mint
  require (w.tradeEscrows.lookup reservationId = none) (.anchor .accountInUse)
  let tokens ← invoke (w.tokens.createAccount (.tradeEscrowTokens reservationId) mint
    (.tradeEscrow reservationId))
  require (v.merchant = merchant) (.anchor .constraintHasOne)
  require (v.mint = mint) (.anchor .constraintRaw)
  require (w.banned merchant = false) (.escrow .walletBanned)
  require (c.allowsSettlementMint mint) (.escrow .settlementMintNotAllowed)
  require (amount ≤ v.reserved) (.escrow .insufficientReservedLiquidity)
  require (0 < timeoutSecs) (.escrow .invalidTimeout)
  let timeoutAt ← checkedAddI64 (.escrow .overflow) w.clock timeoutSecs
  return { w with tokens }.setTradeEscrow reservationId
    { reservationId, buyer, seller := merchant, mint, amount, state := .reserved
      approved := false, createdAt := w.clock, timeoutAt }

def fundTradeEscrow (merchant mint : Pubkey) (reservationId : ℕ) : Except Failure World := do
  let v ← loadLiquidityVault w merchant mint
  let _ ← loadTokenAccount w (.liquidityVaultTokens merchant mint)
  let e ← loadTradeEscrow w reservationId
  let _ ← loadTokenAccount w (.tradeEscrowTokens reservationId)
  require (v.merchant = merchant) (.anchor .constraintHasOne)
  require (v.mint = mint) (.anchor .constraintRaw)
  require (e.seller = merchant) (.anchor .constraintRaw)
  require (e.mint = mint) (.anchor .constraintRaw)
  require (e.state = .reserved) (.escrow .invalidVaultState)
  require (e.amount ≤ v.reserved) (.escrow .insufficientReservedLiquidity)
  let tokens ← invoke (w.tokens.transfer (.liquidityVaultTokens merchant mint) mint
    (.tradeEscrowTokens reservationId) (.liquidityVault merchant mint) e.amount)
  let reserved ← checkedSub (.panicked .subtraction) v.reserved e.amount
  let pendingSettlement ← checkedAdd 64 (.escrow .overflow) v.pendingSettlement e.amount
  return ({ w with tokens }.setLiquidityVault merchant mint
    { v with reserved, pendingSettlement }).setTradeEscrow reservationId
      { e with state := .awaitingFiatSettlement }

def approveSettlement (merchant : Pubkey) (reservationId : ℕ) : Except Failure World := do
  let e ← loadTradeEscrow w reservationId
  require (e.seller = merchant) (.anchor .constraintRaw)
  require (e.state = .awaitingFiatSettlement) (.escrow .invalidVaultState)
  return w.setTradeEscrow reservationId { e with approved := true }

def releaseEscrow (mint : Pubkey) (reservationId : ℕ) (buyerTokenAccount : Pubkey) :
    Except Failure World := do
  let e ← loadTradeEscrow w reservationId
  let v ← loadLiquidityVault w e.seller mint
  let _ ← loadTokenAccount w (.tradeEscrowTokens reservationId)
  let buyer ← loadTokenAccount w buyerTokenAccount
  let c ← loadFeeConfig w
  let _ ← loadTreasuries w c
  require (v.mint = mint) (.anchor .constraintRaw)
  require (e.mint = mint) (.anchor .constraintRaw)
  require (e.state = .awaitingFiatSettlement) (.escrow .invalidVaultState)
  require (e.approved = true) (.escrow .invalidVaultState)
  require (buyer.owner = e.buyer) (.anchor .constraintRaw)
  require (buyer.mint = mint) (.anchor .constraintRaw)
  require (.tradeEscrowTokens reservationId :: buyerTokenAccount :: treasuryAccounts c).Nodup
    (.anchor .constraintDuplicateMutableAccount)
  let (tokens, e', v') ← releaseTradeEscrowFunds w.tokens c e v buyerTokenAccount
  return ({ w with tokens }.setLiquidityVault e.seller mint v').setTradeEscrow reservationId e'

/-- The accounts and constraints that cancelling and expiring have in common. -/
def loadUnapproved (mint : Pubkey) (reservationId : ℕ) :
    Except Failure (TradeEscrowVault × LiquidityVault) := do
  let e ← loadTradeEscrow w reservationId
  let v ← loadLiquidityVault w e.seller mint
  let _ ← loadTokenAccount w (.tradeEscrowTokens reservationId)
  let _ ← loadTokenAccount w (.liquidityVaultTokens e.seller mint)
  require (v.mint = mint) (.anchor .constraintRaw)
  require (e.mint = mint) (.anchor .constraintRaw)
  require (e.approved = false) (.escrow .invalidVaultState)
  require (e.state = .reserved ∨ e.state = .awaitingFiatSettlement) (.escrow .invalidVaultState)
  return (e, v)

/-- A funded escrow returns its tokens, an unfunded one its reservation. -/
def returnToSeller (L : Ledger Pubkey) (e : TradeEscrowVault) (v : LiquidityVault) :
    Except Failure (Ledger Pubkey × LiquidityVault) :=
  if e.state = .awaitingFiatSettlement then unwindFundedTradeEscrow L e v
  else do
    let v ← releaseReservationMarking v e.amount
    return (L, v)

def closeReservation (mint : Pubkey) (reservationId : ℕ) (e : TradeEscrowVault)
    (v : LiquidityVault) : Except Failure World := do
  let (tokens, v') ← returnToSeller w.tokens e v
  return ({ w with tokens }.setLiquidityVault e.seller mint v').setTradeEscrow reservationId
    { e with state := .cancelled }

def cancelReservation (signer mint : Pubkey) (reservationId : ℕ) : Except Failure World := do
  let (e, v) ← loadUnapproved w mint reservationId
  require (signer = e.buyer ∨ signer = e.seller) (.escrow .notAPartyToThisTrade)
  closeReservation w mint reservationId e v

def expireReservation (mint : Pubkey) (reservationId : ℕ) : Except Failure World := do
  let (e, v) ← loadUnapproved w mint reservationId
  require (e.timeoutAt < w.clock) (.escrow .notYetExpired)
  closeReservation w mint reservationId e v

end Handlers

section Specs
variable {w w' : World}

variable {admin merchant mint : Pubkey} {id n : ℕ}

theorem initializeFeeConfig_ok {p : FeeParams} {t : Treasuries}
    (h : initializeFeeConfig w admin p t = .ok w') :
    w.feeConfig = none ∧ ∃ c, c.disputeFilingFee = p.disputeFilingFee ∧
      w' = { w with feeConfig := some c } := by
  simp only [initializeFeeConfig, bind_ok, require_ok, pure_ok, exists_const,
    Option.isNone_iff_eq_none] at h
  obtain ⟨hnone, _, -, _, -, -, rfl⟩ := h
  exact ⟨hnone, _, rfl, rfl⟩

theorem updateFeeConfig_ok {p : FeeParams} {t : Treasuries} {age : ℤ} {bps : ℕ}
    {mints : List Pubkey} (h : updateFeeConfig w admin mint p t age bps mints = .ok w') :
    ∃ c c', w.feeConfig = some c ∧ c.admin = admin ∧ c'.disputeFilingFee = p.disputeFilingFee ∧
      w' = { w with feeConfig := some c' } := by
  simp only [updateFeeConfig, bind_ok, require_ok, pure_ok, exists_const, loadFeeConfig_ok,
    loadTokenAccount_ok] at h
  obtain ⟨c, hc, _, -, _, -, _, -, _, -, hadmin, -, _, -, _, -, -, -, -, -, _, -, -, rfl⟩ := h
  exact ⟨c, _, hc, hadmin, rfl, rfl⟩

theorem initializeArbitrationPool_ok (h : initializeArbitrationPool w admin mint = .ok w') :
    ∃ L, w.tokens.createAccount .arbitrationPool mint .feeConfig = .ok L ∧
      w' = { w with tokens := L } := by
  simp only [initializeArbitrationPool, bind_ok, require_ok, invoke_ok, pure_ok, exists_const,
    loadFeeConfig_ok] at h
  obtain ⟨c, -, L, hL, -, rfl⟩ := h
  exact ⟨L, hL, rfl⟩

theorem publishArbitratorPoolSize_ok (h : publishArbitratorPoolSize w admin n = .ok w') :
    ∃ p, w' = { w with arbitrationPolicy := some p } := by
  simp only [publishArbitratorPoolSize, bind_ok, require_ok, pure_ok, exists_const,
    loadFeeConfig_ok] at h
  obtain ⟨c, -, -, rfl⟩ := h
  exact ⟨_, rfl⟩

/-- A vault as it is created: empty, under its own keys. -/
def emptyVault (merchant mint : Pubkey) : LiquidityVault :=
  { merchant, mint, total := 0, reserved := 0, available := 0, settled := 0
    pendingSettlement := 0 }

theorem createLiquidityVault_ok (h : createLiquidityVault w merchant mint = .ok w') :
    ∃ L, w.liquidityVaults.lookup (merchant, mint) = none ∧
      w.tokens.createAccount (.liquidityVaultTokens merchant mint) mint
        (.liquidityVault merchant mint) = .ok L ∧
      w' = { w with
        tokens := L
        liquidityVaults :=
          w.liquidityVaults.insert (merchant, mint) (emptyVault merchant mint) } := by
  simp only [createLiquidityVault, bind_ok, require_ok, invoke_ok, pure_ok, exists_const,
    loadFeeConfig_ok] at h
  obtain ⟨c, -, hnone, L, hL, _, -, rfl⟩ := h
  exact ⟨L, hnone, hL, rfl⟩

theorem depositLiquidity_ok {source : Pubkey}
    (h : depositLiquidity w merchant mint source n = .ok w') :
    ∃ v L, w.liquidityVaults.lookup (merchant, mint) = some v ∧
      w.tokens.header source = some (mint, merchant) ∧
      Ledger.Moved [⟨source, .liquidityVaultTokens merchant mint, n⟩] w.tokens L ∧
      v.total + n < 2 ^ 64 ∧ v.available + n < 2 ^ 64 ∧
      w' = { w with
        tokens := L
        liquidityVaults := w.liquidityVaults.insert (merchant, mint)
          { v with total := v.total + n, available := v.available + n } } := by
  simp only [depositLiquidity, bind_ok, require_ok, invoke_ok, pure_ok, exists_const,
    checkedAdd_ok, loadLiquidityVault_ok, loadTokenAccount_ok] at h
  obtain ⟨v, hv, _, -, _, -, -, -, -, -, L, hL, _, ⟨ht, rfl⟩, _, ⟨ha, rfl⟩, rfl⟩ := h
  exact ⟨v, L, hv, (Ledger.transfer_ok.mp hL).2.1, Ledger.moved_transfer hL, ht, ha, rfl⟩

theorem withdrawLiquidity_ok {target : Pubkey}
    (h : withdrawLiquidity w merchant mint target n = .ok w') :
    ∃ v L, w.liquidityVaults.lookup (merchant, mint) = some v ∧
      Ledger.Moved [⟨.liquidityVaultTokens merchant mint, target, n⟩] w.tokens L ∧
      n ≤ v.available ∧ n ≤ v.total ∧
      w' = { w with
        tokens := L
        liquidityVaults := w.liquidityVaults.insert (merchant, mint)
          { v with available := v.available - n, total := v.total - n } } := by
  simp only [withdrawLiquidity, bind_ok, require_ok, invoke_ok, pure_ok, exists_const,
    checkedSub_ok, loadLiquidityVault_ok, loadTokenAccount_ok] at h
  obtain ⟨v, hv, _, -, _, -, -, -, -, -, -, L, hL, _, ⟨ha, rfl⟩, _, ⟨ht, rfl⟩, rfl⟩ := h
  exact ⟨v, L, hv, Ledger.moved_transfer hL, ha, ht, rfl⟩

theorem reserveLiquidity_ok (h : reserveLiquidity w merchant mint n = .ok w') :
    ∃ v, w.liquidityVaults.lookup (merchant, mint) = some v ∧ n ≤ v.available ∧
      w' = { w with
        liquidityVaults := w.liquidityVaults.insert (merchant, mint)
          { v with available := v.available - n, reserved := v.reserved + n } } := by
  simp only [reserveLiquidity, bind_ok, require_ok, pure_ok, exists_const, checkedSub_ok,
    checkedAdd_ok, loadLiquidityVault_ok, loadFeeConfig_ok] at h
  obtain ⟨v, hv, c, -, -, -, -, -, ha, _, ⟨-, rfl⟩, _, ⟨-, rfl⟩, rfl⟩ := h
  exact ⟨v, hv, ha, rfl⟩

theorem chargeAdListingFee_ok (h : chargeAdListingFee w merchant mint = .ok w') :
    ∃ v L c shares, w.liquidityVaults.lookup (merchant, mint) = some v ∧
      shares.sum = c.adListingFee ∧
      Ledger.Moved (Ledger.payments (.liquidityVaultTokens merchant mint)
        (treasuryPayments c shares)) w.tokens L ∧
      c.adListingFee ≤ v.available ∧ c.adListingFee ≤ v.total ∧
      w' = { w with
        tokens := L
        liquidityVaults := w.liquidityVaults.insert (merchant, mint)
          { v with
            available := v.available - c.adListingFee, total := v.total - c.adListingFee } } := by
  simp only [chargeAdListingFee, bind_ok, require_ok, invoke_ok, raiseEscrow_ok, pure_ok,
    exists_const, checkedSub_ok, loadLiquidityVault_ok, loadFeeConfig_ok, loadTokenAccount_ok] at h
  obtain ⟨c, -, v, hv, _, -, _, -, -, -, -, -, -, -, shares, hs, L, hL, _, ⟨ha, rfl⟩, _, ⟨ht, rfl⟩,
    rfl⟩ := h
  exact ⟨v, L, c, shares, hv, splitFeeFourWays_sum hs, Ledger.moved_payEach hL, ha, ht, rfl⟩

theorem createTradeEscrow_ok {buyer : Pubkey} {secs : ℤ}
    (h : createTradeEscrow w merchant buyer mint id n secs = .ok w') :
    ∃ v L timeoutAt, w.liquidityVaults.lookup (merchant, mint) = some v ∧ n ≤ v.reserved ∧
      w.tradeEscrows.lookup id = none ∧
      w.tokens.createAccount (.tradeEscrowTokens id) mint (.tradeEscrow id) = .ok L ∧
      w' = { w with
        tokens := L
        tradeEscrows := w.tradeEscrows.insert id
          { reservationId := id, buyer, seller := merchant, mint, amount := n, state := .reserved
            approved := false, createdAt := w.clock, timeoutAt } } := by
  simp only [createTradeEscrow, bind_ok, require_ok, invoke_ok, pure_ok, exists_const,
    checkedAddI64_ok, loadFeeConfig_ok, loadLiquidityVault_ok] at h
  obtain ⟨c, -, v, hv, hnone, L, hL, -, -, -, -, hn, -, t, -, rfl⟩ := h
  exact ⟨v, L, t, hv, hn, hnone, hL, rfl⟩

theorem fundTradeEscrow_ok (h : fundTradeEscrow w merchant mint id = .ok w') :
    ∃ v e L, w.liquidityVaults.lookup (merchant, mint) = some v ∧
      w.tradeEscrows.lookup id = some e ∧ e.reservationId = id ∧ e.seller = merchant ∧
      e.mint = mint ∧ e.state = .reserved ∧ e.amount ≤ v.reserved ∧
      Ledger.Moved [⟨.liquidityVaultTokens merchant mint, .tradeEscrowTokens id, e.amount⟩]
        w.tokens L ∧
      w' = { w with
        tokens := L
        liquidityVaults := w.liquidityVaults.insert (merchant, mint)
          { v with
            reserved := v.reserved - e.amount
            pendingSettlement := v.pendingSettlement + e.amount }
        tradeEscrows := w.tradeEscrows.insert id { e with state := .awaitingFiatSettlement } } := by
  simp only [fundTradeEscrow, bind_ok, require_ok, invoke_ok, pure_ok, exists_const, checkedSub_ok,
    checkedAdd_ok, loadLiquidityVault_ok, loadTokenAccount_ok, loadTradeEscrow_ok] at h
  obtain ⟨v, hv, _, -, e, ⟨he, hid⟩, _, -, -, -, hs, hm, hst, hr, L, hL, _, ⟨-, rfl⟩, _, ⟨-, rfl⟩,
    rfl⟩ := h
  exact ⟨v, e, L, hv, he, hid, hs, hm, hst, hr, Ledger.moved_transfer hL, rfl⟩

theorem approveSettlement_ok (h : approveSettlement w merchant id = .ok w') :
    ∃ e, w.tradeEscrows.lookup id = some e ∧ e.state = .awaitingFiatSettlement ∧
      w' = { w with tradeEscrows := w.tradeEscrows.insert id { e with approved := true } } := by
  simp only [approveSettlement, bind_ok, require_ok, pure_ok, exists_const, loadTradeEscrow_ok] at h
  obtain ⟨e, ⟨he, -⟩, -, hst, rfl⟩ := h
  exact ⟨e, he, hst, rfl⟩

theorem releaseEscrow_ok {buyerTokenAccount : Pubkey}
    (h : releaseEscrow w mint id buyerTokenAccount = .ok w') :
    ∃ e v c L e' v', w.tradeEscrows.lookup id = some e ∧ e.reservationId = id ∧
      w.liquidityVaults.lookup (e.seller, e.mint) = some v ∧ w.feeConfig = some c ∧
      e.mint = mint ∧ e.state = .awaitingFiatSettlement ∧ e.approved = true ∧
      w.tokens.header buyerTokenAccount = some (e.mint, e.buyer) ∧
      releaseTradeEscrowFunds w.tokens c e v buyerTokenAccount = .ok (L, e', v') ∧
      w' = { w with
        tokens := L
        liquidityVaults := w.liquidityVaults.insert (e.seller, e.mint) v'
        tradeEscrows := w.tradeEscrows.insert id e' } := by
  simp only [releaseEscrow, bind_ok, require_ok, pure_ok, exists_const, loadLiquidityVault_ok,
    loadTokenAccount_ok, loadTradeEscrow_ok, loadFeeConfig_ok] at h
  obtain ⟨e, ⟨he, hid⟩, v, hv, _, -, b, hb, c, hc, _, -, -, rfl, hst, happ, ho, hbm, -, ⟨L, e', v'⟩,
    hr, rfl⟩ := h
  refine ⟨e, v, c, L, e', v', he, hid, hv, hc, rfl, hst, happ, ?_, hr, rfl⟩
  rw [Ledger.header_of_lookup hb, hbm, ho]

theorem returnToSeller_ok {L L' : Ledger Pubkey} {e : TradeEscrowVault} {v v' : LiquidityVault}
    (h : returnToSeller L e v = .ok (L', v')) :
    (e.state = .awaitingFiatSettlement ∧ unwindFundedTradeEscrow L e v = .ok (L', v')) ∨
      (e.state ≠ .awaitingFiatSettlement ∧ L' = L ∧
        releaseReservationMarking v e.amount = .ok v') := by
  unfold returnToSeller at h
  split_ifs at h with hst
  · exact .inl ⟨hst, h⟩
  · simp only [bind_ok, pure_ok, Prod.mk.injEq] at h
    obtain ⟨_, hv, rfl, rfl⟩ := h
    exact .inr ⟨hst, rfl, hv⟩

/-- The common effect of cancelling and of expiring a reservation. -/
def ClosesReservation (w : World) (id : ℕ) (w' : World) : Prop :=
  ∃ e v L v', w.tradeEscrows.lookup id = some e ∧ e.reservationId = id ∧
    w.liquidityVaults.lookup (e.seller, e.mint) = some v ∧ e.approved = false ∧
    (e.state = .reserved ∨ e.state = .awaitingFiatSettlement) ∧
    returnToSeller w.tokens e v = .ok (L, v') ∧
    w' = { w with
      tokens := L
      liquidityVaults := w.liquidityVaults.insert (e.seller, e.mint) v'
      tradeEscrows := w.tradeEscrows.insert id { e with state := .cancelled } }

theorem loadUnapproved_ok {e : TradeEscrowVault} {v : LiquidityVault}
    (h : loadUnapproved w mint id = .ok (e, v)) :
    e.mint = mint ∧ w.tradeEscrows.lookup id = some e ∧ e.reservationId = id ∧
      w.liquidityVaults.lookup (e.seller, e.mint) = some v ∧ e.approved = false ∧
      (e.state = .reserved ∨ e.state = .awaitingFiatSettlement) := by
  simp only [loadUnapproved, bind_ok, require_ok, pure_ok, exists_const, loadLiquidityVault_ok,
    loadTokenAccount_ok, loadTradeEscrow_ok, Prod.mk.injEq] at h
  obtain ⟨_, ⟨he, hid⟩, _, hv, _, -, _, -, -, rfl, happ, hst, rfl, rfl⟩ := h
  exact ⟨rfl, he, hid, hv, happ, hst⟩

theorem closesReservation_of_close {e : TradeEscrowVault} {v : LiquidityVault}
    (hload : loadUnapproved w mint id = .ok (e, v)) (h : closeReservation w mint id e v = .ok w') :
    ClosesReservation w id w' := by
  obtain ⟨rfl, he, hid, hv, happ, hst⟩ := loadUnapproved_ok hload
  simp only [closeReservation, bind_ok, pure_ok] at h
  obtain ⟨⟨L, v'⟩, hr, rfl⟩ := h
  exact ⟨_, _, L, v', he, hid, hv, happ, hst, hr, rfl⟩

theorem cancelReservation_ok {signer : Pubkey} (h : cancelReservation w signer mint id = .ok w') :
    ClosesReservation w id w' := by
  simp only [cancelReservation, bind_ok, require_ok, exists_const] at h
  obtain ⟨⟨e, v⟩, hload, -, h⟩ := h
  exact closesReservation_of_close hload h

theorem expireReservation_ok (h : expireReservation w mint id = .ok w') :
    ClosesReservation w id w' := by
  simp only [expireReservation, bind_ok, require_ok, exists_const] at h
  obtain ⟨⟨e, v⟩, hload, -, h⟩ := h
  exact closesReservation_of_close hload h

end Specs

end OpenFiat.EscrowLiquidity
