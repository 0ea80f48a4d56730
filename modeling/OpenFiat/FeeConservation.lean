import OpenFiat.ConfigMigration
import OpenFiat.EscrowFunds
import OpenFiat.TransactionRuns

/-!
# Every fee is split without loss

The fee configuration is written by three instructions: the one that creates it, the one that
replaces its values, and the migration that carries over what an older version of the program
had stored. Whatever they do, the account loads as a configuration whose four shares make up
the whole, and with such a configuration each fee is paid out to the last unit.
-/
namespace OpenFiat.FeeConservation
open GuardedResult TransactionRuns RecordLayouts ProgramAddress EscrowAccounts ChainWorld
open ConfigMigration EscrowFunds

/-- The numeric parameters that the first two instructions share. -/
structure FeeRates where
  adListingFee : UInt64
  disputeFilingFee : UInt64
  settlementFeeBps : UInt16
  devTreasuryBps : UInt16
  ecosystemTreasuryBps : UInt16
  infraTreasuryBps : UInt16
  emergencyReserveBps : UInt16
  timeoutSecs : Int64
deriving DecidableEq, Repr

def FeeRates.splitTotal (p : FeeRates) : ℕ :=
  p.devTreasuryBps.toNat + p.ecosystemTreasuryBps.toNat + p.infraTreasuryBps.toNat +
    p.emergencyReserveBps.toNat

structure TreasuryKeys where
  dev : Block 32
  ecosystem : Block 32
  infra : Block 32
  emergency : Block 32
deriving DecidableEq, Repr

def FeeRates.record (p : FeeRates) (admin : Block 32) (t : TreasuryKeys) (bump : UInt8)
    (minArbitratorStakeAgeSecs : Int64) (arbitratorSortitionBps : UInt16)
    (settlementMints : List (Block 32)) : StoredFeeConfig where
  admin := admin
  __ := p
  devTreasury := t.dev
  ecosystemTreasury := t.ecosystem
  infraTreasury := t.infra
  emergencyReserve := t.emergency
  bump := bump
  minArbitratorStakeAgeSecs := minArbitratorStakeAgeSecs
  arbitratorSortitionBps := arbitratorSortitionBps
  settlementMints := paddedMints settlementMints
  settlementMintCount := UInt8.ofNat settlementMints.length

def initializeFeeConfig (minimumBalance : ℕ → ℕ) (account : Option AccountInfo) (admin : Block 32)
    (bump : UInt8) (p : FeeRates) (t : TreasuryKeys) : Except Failure AccountInfo := do
  require account.isNone (.anchor .accountInUse)
  require (p.settlementFeeBps.toNat ≤ bpsDenominator) (.escrow .invalidFeeBps)
  require (p.splitTotal = bpsDenominator) (.escrow .invalidFeeSplit)
  require (0 < p.timeoutSecs) (.escrow .invalidTimeout)
  return ⟨escrowProgram, minimumBalance feeConfigLen,
    (p.record admin t bump 0 0 defaultSettlementMintKeys).bytes⟩

/-- The values that an update brings besides the rates. -/
structure FeePolicy where
  minArbitratorStakeAgeSecs : Int64
  arbitratorSortitionBps : UInt16
  settlementMints : List (Block 32)
deriving DecidableEq, Repr

/-- `mintOf` gives the mints of the token accounts on the chain. -/
def updateFeeConfig (mintOf : Block 32 → Option (Block 32)) (account : Option AccountInfo)
    (admin mint : Block 32) (p : FeeRates) (t : TreasuryKeys) (q : FeePolicy) :
    Except Failure AccountInfo := do
  let info ← load account (.anchor .accountNotInitialized)
  let c ← load (readFeeConfig info.data) (.anchor .accountDidNotDeserialize)
  let dev ← load (mintOf t.dev) (.anchor .accountNotInitialized)
  let ecosystem ← load (mintOf t.ecosystem) (.anchor .accountNotInitialized)
  let infra ← load (mintOf t.infra) (.anchor .accountNotInitialized)
  let emergency ← load (mintOf t.emergency) (.anchor .accountNotInitialized)
  require (c.admin = admin) (.escrow .unauthorized)
  require (dev = mint ∧ ecosystem = mint ∧ infra = mint ∧ emergency = mint) (.anchor .constraintRaw)
  require (p.settlementFeeBps.toNat ≤ bpsDenominator) (.escrow .invalidFeeBps)
  require (p.splitTotal = bpsDenominator) (.escrow .invalidFeeSplit)
  require (0 < p.timeoutSecs) (.escrow .invalidTimeout)
  require (0 ≤ q.minArbitratorStakeAgeSecs) (.escrow .invalidStakeAge)
  require (q.arbitratorSortitionBps.toNat < bpsDenominator) (.escrow .invalidSortitionThreshold)
  require (q.settlementMints ≠ []) (.escrow .emptySettlementMintList)
  require (q.settlementMints.length ≤ maxSettlementMints) (.escrow .settlementMintListFull)
  require (.zero 32 ∉ q.settlementMints ∧ q.settlementMints.Nodup) (.escrow .invalidSettlementMint)
  return { info with data := (p.record c.admin t c.bump q.minArbitratorStakeAgeSecs
    q.arbitratorSortitionBps q.settlementMints).bytes }

inductive FeeConfigCall where
  | create (admin : Block 32) (bump : UInt8) (p : FeeRates) (t : TreasuryKeys)
  | update (mintOf : Block 32 → Option (Block 32)) (admin mint : Block 32) (p : FeeRates)
      (t : TreasuryKeys) (q : FeePolicy)
  | migrate (payer : Signer)

inductive CallFailure where
  | instruction (e : Failure)
  | migration (e : MigrationFailure)
deriving DecidableEq, Repr

def step (minimumBalance : ℕ → ℕ) (account : Option AccountInfo) :
    FeeConfigCall → Except CallFailure (Option AccountInfo)
  | .create admin bump p t => do
    let info ← (initializeFeeConfig minimumBalance account admin bump p t).mapError .instruction
    return some info
  | .update mintOf admin mint p t q => do
    let info ← (updateFeeConfig mintOf account admin mint p t q).mapError .instruction
    return some info
  | .migrate payer => do
    let info ← load account (.instruction (.anchor .accountNotInitialized))
    let r ← (migrateFeeConfig minimumBalance payer info).mapError .migration
    return some r.2

/-- The rates are shares of a whole, and the four shares of a fee make up all of it. -/
structure SoundRates (c : FeeConfigV1) : Prop where
  settlementFeeBps_le : c.settlementFeeBps.toNat ≤ bpsDenominator
  split_eq : c.devTreasuryBps.toNat + c.ecosystemTreasuryBps.toNat + c.infraTreasuryBps.toNat +
    c.emergencyReserveBps.toNat = bpsDenominator

/-- Where the instructions start: at no account, or at one that an older version of the program,
with the same checks on the rates, left in one of its two layouts. -/
inductive Deployed : Option AccountInfo → Prop
  | absent : Deployed none
  | first (info : AccountInfo) (c : FeeConfigV1) : info.data = c.bytes → SoundRates c →
      Deployed (some info)
  | second (info : AccountInfo) (c : FeeConfigV2) : info.data = c.bytes →
      SoundRates c.toFeeConfigV1 → Deployed (some info)

structure Current (info : AccountInfo) (d : StoredFeeConfig) : Prop where
  data : info.data = d.bytes
  rates : SoundRates d.toFeeConfigV1
  count : d.settlementMintCount.toNat ≤ maxSettlementMints

def Kept (account : Option AccountInfo) : Prop :=
  Deployed account ∨ ∃ info d, account = some info ∧ Current info d

section Steps
variable {minimumBalance : ℕ → ℕ} {account account' : Option AccountInfo} {info info' : AccountInfo}
  {p : FeeRates} {t : TreasuryKeys} {d : StoredFeeConfig}

theorem count_of_le {mints : List (Block 32)} (h : mints.length ≤ maxSettlementMints) :
    (UInt8.ofNat mints.length).toNat ≤ maxSettlementMints := by
  exact (Nat.mod_le _ _).trans h

theorem current_record (hbps : p.settlementFeeBps.toNat ≤ bpsDenominator)
    (hsplit : p.splitTotal = bpsDenominator) {mints : List (Block 32)}
    (hlength : mints.length ≤ maxSettlementMints) (admin : Block 32) (bump : UInt8)
    (age : Int64) (bps : UInt16)
    (hdata : info.data = (p.record admin t bump age bps mints).bytes) :
    Current info (p.record admin t bump age bps mints) :=
  ⟨hdata, ⟨hbps, hsplit⟩, count_of_le hlength⟩

theorem initializeFeeConfig_current {admin : Block 32} {bump : UInt8}
    (h : initializeFeeConfig minimumBalance account admin bump p t = .ok info) :
    ∃ d, Current info d := by
  simp only [initializeFeeConfig, bind_ok, require_ok, pure_ok, exists_const] at h
  obtain ⟨-, hbps, hsplit, -, rfl⟩ := h
  exact ⟨_, current_record hbps hsplit (by decide) _ _ _ _ rfl⟩

theorem updateFeeConfig_current {mintOf : Block 32 → Option (Block 32)} {admin mint : Block 32}
    {q : FeePolicy} (h : updateFeeConfig mintOf account admin mint p t q = .ok info) :
    ∃ d, Current info d := by
  simp only [updateFeeConfig, bind_ok, load_ok, require_ok, pure_ok, exists_const] at h
  obtain ⟨_, -, c, -, _, -, _, -, _, -, _, -, -, -, hbps, hsplit, -, -, -, -, hlength, -, rfl⟩ := h
  exact ⟨_, current_record hbps hsplit hlength _ _ _ _ rfl⟩

theorem current_listed {c : FeeConfigV2} (hrates : SoundRates c.toFeeConfigV1)
    (hdata : info.data = c.listed.bytes) : Current info c.listed :=
  ⟨hdata, hrates, count_of_le (by decide)⟩

theorem migrateFeeConfig_current {payer payer' : Signer} (hkept : Kept (some info))
    (h : migrateFeeConfig minimumBalance payer info = .ok (payer', info')) :
    ∃ d, Current info' d := by
  rcases hkept with hold | ⟨_, d, hinfo, hcurrent⟩
  · cases hold with
    | first _ c hdata hrates =>
      obtain ⟨-, heq⟩ := (migrateFeeConfig_v1_ok_iff hdata _).mp h
      exact ⟨_, current_listed hrates (congrArg (fun r => r.2.data) heq)⟩
    | second _ c hdata hrates =>
      obtain ⟨-, heq⟩ := (migrateFeeConfig_v2_ok_iff hdata _).mp h
      exact ⟨_, current_listed hrates (congrArg (fun r => r.2.data) heq)⟩
  · -- An account in the current layout is refused.
    obtain rfl := Option.some.inj hinfo
    rw [migrateFeeConfig_refused (hcurrent.data ▸ length_stored_fee_bytes d)] at h
    cases h

theorem step_kept {call : FeeConfigCall} (hkept : Kept account)
    (h : step minimumBalance account call = .ok account') : Kept account' := by
  cases call with
  | create =>
    simp only [step, bind_ok, mapError_ok, pure_ok] at h
    obtain ⟨info, hcall, rfl⟩ := h
    obtain ⟨d, hd⟩ := initializeFeeConfig_current hcall
    exact .inr ⟨info, d, rfl, hd⟩
  | update =>
    simp only [step, bind_ok, mapError_ok, pure_ok] at h
    obtain ⟨info, hcall, rfl⟩ := h
    obtain ⟨d, hd⟩ := updateFeeConfig_current hcall
    exact .inr ⟨info, d, rfl, hd⟩
  | migrate =>
    simp only [step, bind_ok, load_ok, mapError_ok, pure_ok] at h
    obtain ⟨info, rfl, r, hcall, rfl⟩ := h
    obtain ⟨d, hd⟩ := migrateFeeConfig_current hkept hcall
    exact .inr ⟨r.2, d, rfl, hd⟩

theorem readFeeConfig_of_short (h : info.data.length < feeConfigLen) :
    readFeeConfig info.data = none := by
  have hshort : (info.data.drop 8).length < storedFeeLayout.size := by
    have hsize : 0 < storedFeeLayout.size := by decide
    rw [List.length_drop]
    unfold feeConfigLen at h
    omega
  rw [readFeeConfig, readAccount, storedFeeLayout.read_of_short hshort, ite_self]

theorem current_of_read (hkept : Kept (some info)) (hread : readFeeConfig info.data = some d) :
    Current info d := by
  rcases hkept with hold | ⟨_, d', hinfo, hcurrent⟩
  · have hshort : info.data.length < feeConfigLen := by
      cases hold with
      | first _ c hdata => exact hdata ▸ (length_v1_bytes c).trans_lt (by decide)
      | second _ c hdata => exact hdata ▸ (length_v2_bytes c).trans_lt (by decide)
    rw [readFeeConfig_of_short hshort] at hread
    cases hread
  · obtain rfl := Option.some.inj hinfo
    rw [hcurrent.data, StoredFeeConfig.bytes, readFeeConfig, readAccount_encode rfl] at hread
    exact Option.some.inj hread ▸ hcurrent

end Steps

/-- The configuration that the instructions work with, given how its key bytes name addresses. -/
def loadFeeConfig (K : Block 32 → Pubkey) (d : StoredFeeConfig)
    (hrates : SoundRates d.toFeeConfigV1)
    (hcount : d.settlementMintCount.toNat ≤ maxSettlementMints) : FeeConfig where
  admin := K d.admin
  adListingFee := d.adListingFee.toNat
  disputeFilingFee := d.disputeFilingFee.toNat
  settlementFeeBps := d.settlementFeeBps.toNat
  devTreasury := K d.devTreasury
  ecosystemTreasury := K d.ecosystemTreasury
  infraTreasury := K d.infraTreasury
  emergencyReserve := K d.emergencyReserve
  devTreasuryBps := d.devTreasuryBps.toNat
  ecosystemTreasuryBps := d.ecosystemTreasuryBps.toNat
  infraTreasuryBps := d.infraTreasuryBps.toNat
  emergencyReserveBps := d.emergencyReserveBps.toNat
  timeoutSecs := d.timeoutSecs.toInt
  minArbitratorStakeAgeSecs := d.minArbitratorStakeAgeSecs.toInt
  arbitratorSortitionBps := d.arbitratorSortitionBps.toNat
  settlementMints := ((List.ofFn d.settlementMints).take d.settlementMintCount.toNat).map K
  settlementFeeBps_le := hrates.settlementFeeBps_le
  split_eq := hrates.split_eq
  settlementMints_length_le := (List.length_map _).trans_le ((List.length_take_le _ _).trans hcount)

def exactShare (amount bps : ℕ) : ℕ := amount * bps / bpsDenominator

/-- The shares of a fee: three are rounded down, and the ecosystem's also gets what the rounding
left over. -/
structure SplitOf (c : FeeConfig) (fee : ℕ) (s : FeeShares) : Prop where
  dev : s.dev = exactShare fee c.devTreasuryBps
  infra : s.infra = exactShare fee c.infraTreasuryBps
  emergency : s.emergency = exactShare fee c.emergencyReserveBps
  ecosystem : ∃ remainder ≤ 3, s.ecosystem = exactShare fee c.ecosystemTreasuryBps + remainder
  sum : s.sum = fee

section Shares
variable {c : FeeConfig} {amount fee bps : ℕ}

theorem exactShare_le (h : bps ≤ bpsDenominator) : exactShare amount bps ≤ amount := by
  refine Nat.div_le_of_le_mul ?_
  rw [Nat.mul_comm]
  exact Nat.mul_le_mul_right amount h

theorem bpsShare_exact (hamount : amount < 2 ^ 64) (h : bps ≤ bpsDenominator) :
    bpsShare amount bps = exactShare amount bps :=
  Nat.mod_eq_of_lt ((exactShare_le h).trans_lt hamount)

theorem split_bps_le (c : FeeConfig) :
    c.devTreasuryBps ≤ bpsDenominator ∧ c.ecosystemTreasuryBps ≤ bpsDenominator ∧
      c.infraTreasuryBps ≤ bpsDenominator ∧ c.emergencyReserveBps ≤ bpsDenominator := by
  have hsplit := c.split_eq
  omega

theorem splitFeeFourWays_exact (c : FeeConfig) (hfee : fee < 2 ^ 64) :
    ∃ s, splitFeeFourWays c fee = .ok s ∧ SplitOf c fee s := by
  obtain ⟨s, hs⟩ := splitFeeFourWays_total c hfee
  obtain ⟨hdev, heco, hinfra, hemergency⟩ := split_bps_le c
  have hsum : fee * c.devTreasuryBps + fee * c.ecosystemTreasuryBps + fee * c.infraTreasuryBps +
      fee * c.emergencyReserveBps = fee * bpsDenominator := by
    rw [← c.split_eq, Nat.mul_add, Nat.mul_add, Nat.mul_add]
  refine ⟨s, hs, ?_⟩
  have htotal := splitFeeFourWays_sum hs
  simp only [splitFeeFourWays, bind_ok, checkedAdd_ok, checkedSub_ok, pure_ok,
    bpsShare_exact hfee hdev, bpsShare_exact hfee heco, bpsShare_exact hfee hinfra,
    bpsShare_exact hfee hemergency] at hs
  obtain ⟨_, ⟨-, rfl⟩, _, ⟨-, rfl⟩, _, ⟨-, rfl⟩, remainder, ⟨hle, rfl⟩, _, ⟨-, rfl⟩, rfl⟩ := hs
  refine ⟨rfl, rfl, rfl, ⟨_, ?_, rfl⟩, htotal⟩
  -- Each of the four divisions loses less than one unit.
  simp only [exactShare, bpsDenominator] at hsum hle ⊢
  omega

theorem computeFeeSplit_exact (c : FeeConfig) (hamount : amount < 2 ^ 64) :
    ∃ s, computeFeeSplit c amount =
        .ok (amount - exactShare amount c.settlementFeeBps, s) ∧
      splitFeeFourWays c (exactShare amount c.settlementFeeBps) = .ok s ∧
      SplitOf c (exactShare amount c.settlementFeeBps) s := by
  have hfee : exactShare amount c.settlementFeeBps ≤ amount := exactShare_le c.settlementFeeBps_le
  obtain ⟨s, hs, hsplit⟩ := splitFeeFourWays_exact c (hfee.trans_lt hamount)
  refine ⟨s, ?_, hs, hsplit⟩
  simp only [computeFeeSplit, bind_ok, checkedSub_ok, pure_ok,
    bpsShare_exact hamount c.settlementFeeBps_le]
  exact ⟨_, ⟨hfee, rfl⟩, s, hs, rfl⟩

end Shares

/-- Every settlement fee and every flat fee is split exactly, and no cast truncates. -/
structure Conserves (c : FeeConfig) : Prop where
  settlement : ∀ amount : UInt64, ∃ buyerAmount fee s,
    computeFeeSplit c amount.toNat = .ok (buyerAmount, s) ∧
    fee = exactShare amount.toNat c.settlementFeeBps ∧
    bpsShare amount.toNat c.settlementFeeBps = fee ∧
    buyerAmount + s.dev + s.ecosystem + s.infra + s.emergency = amount.toNat ∧
    SplitOf c fee s ∧
    -- A flat fee of the same size is split in the same way.
    splitFeeFourWays c fee = .ok s
  flat : ∀ fee : UInt64, ∃ s, splitFeeFourWays c fee.toNat = .ok s ∧ SplitOf c fee.toNat s
  untruncated : ∀ fee : UInt64, ∀ bps ∈ [c.devTreasuryBps, c.ecosystemTreasuryBps,
    c.infraTreasuryBps, c.emergencyReserveBps], bpsShare fee.toNat bps = exactShare fee.toNat bps

theorem conserves (c : FeeConfig) : Conserves c := by
  refine ⟨fun amount => ?_, fun fee => splitFeeFourWays_exact c fee.toNat_lt,
    fun fee bps hbps => ?_⟩
  · obtain ⟨s, hcompute, hflat, hsplit⟩ := computeFeeSplit_exact c amount.toNat_lt
    have hfee : exactShare amount.toNat c.settlementFeeBps ≤ amount.toNat :=
      exactShare_le c.settlementFeeBps_le
    have hsum := hsplit.sum
    unfold FeeShares.sum at hsum
    exact ⟨_, _, s, hcompute, rfl, bpsShare_exact amount.toNat_lt c.settlementFeeBps_le, by omega,
      hsplit, hflat⟩
  · obtain ⟨hdev, heco, hinfra, hemergency⟩ := split_bps_le c
    refine bpsShare_exact fee.toNat_lt ?_
    simp only [List.mem_cons, List.not_mem_nil, or_false] at hbps
    rcases hbps with rfl | rfl | rfl | rfl <;> assumption

/-- After every sequence of calls of the three instructions, a configuration that can be read
splits every fee without loss. -/
theorem fee_split_conserved (minimumBalance : ℕ → ℕ) (account : Option AccountInfo)
    (hdeployed : Deployed account) (calls : List FeeConfigCall) (info : AccountInfo)
    (hinfo : run (step minimumBalance) account calls = some info) (d : StoredFeeConfig)
    (hread : readFeeConfig info.data = some d) (K : Block 32 → Pubkey) :
    ∃ hrates hcount, Conserves (loadFeeConfig K d hrates hcount) := by
  have hkept : Kept (some info) :=
    hinfo ▸ run_invariant_always (fun _ _ _ => step_kept) (.inl hdeployed) calls
  have hcurrent := current_of_read hkept hread
  exact ⟨hcurrent.rates, hcurrent.count, conserves _⟩

/-- The fees of the first deployment, migrated. -/
theorem fee_split_conserved_migrated :
    ∃ info d, run (step fun len => 10 * len) (some ⟨escrowProgram, 2030, deployedFees.bytes⟩)
        [.migrate ⟨.zero 32, 5230⟩] = some info ∧ readFeeConfig info.data = some d ∧
      ∃ hrates hcount, Conserves (loadFeeConfig (fun _ => .wallet 0) d hrates hcount) := by
  have hdeployed : Deployed (some ⟨escrowProgram, 2030, deployedFees.bytes⟩) :=
    .first _ deployedFees rfl ⟨by decide, by decide⟩
  obtain ⟨r, hr⟩ : ∃ r, r = afterMigration (fun len => 10 * len) feeConfigLen ⟨.zero 32, 5230⟩
    ⟨escrowProgram, 2030, deployedFees.bytes⟩ deployedFees.ungated.listed.bytes := ⟨_, rfl⟩
  have hmigrate : migrateFeeConfig (fun len => 10 * len) ⟨.zero 32, 5230⟩
      ⟨escrowProgram, 2030, deployedFees.bytes⟩ = .ok r :=
    (migrateFeeConfig_v1_ok_iff rfl r).mpr ⟨⟨rfl, by decide⟩, hr⟩
  have hrun : run (step fun len => 10 * len) (some ⟨escrowProgram, 2030, deployedFees.bytes⟩)
      [.migrate ⟨.zero 32, 5230⟩] = some r.2 := by
    refine run_cons_ok ?_ []
    simp only [step, bind_ok, load_ok, mapError_ok, pure_ok]
    exact ⟨_, rfl, r, hmigrate, rfl⟩
  have hread : readFeeConfig r.2.data = some deployedFees.ungated.listed := by
    rw [hr]
    exact readAccount_encode rfl _ _
  exact ⟨r.2, _, hrun, hread, fee_split_conserved _ _ hdeployed _ _ hrun _ hread _⟩

end OpenFiat.FeeConservation
