import OpenFiat.RecordLayouts
import OpenFiat.StakingInstructions

/-!
# Growing the configuration accounts

Two accounts were deployed in layouts that the programs no longer read. `migrate_staking_config`
replaces one unbonding period by one for each role, which moves all that follows it, and
`migrate_fee_config` appends what its account lacks, from either of two starting layouts. Both
work on the raw bytes at offsets computed by hand. The theorems say which record the written
bytes are, in the layout that the programs read.
-/
namespace OpenFiat.ConfigMigration
open GuardedResult RecordLayouts WireBytes ProgramAddress EscrowAccounts StakingAccounts

/-- An account as the runtime hands it over; the owner is the base-58 address of a program. -/
structure AccountInfo where
  owner : String
  lamports : ℕ
  data : List UInt8
deriving DecidableEq, Repr

structure Signer where
  key : Block 32
  lamports : ℕ
deriving DecidableEq, Repr

inductive MigrationFailure where
  | staking (e : StakingError)
  | escrow (e : EscrowError)
  | feeConfigAlreadyMigrated
  | insufficientLamports
  | outOfRange
deriving DecidableEq, Repr

def rentDue (minimumBalance : ℕ → ℕ) (newLen : ℕ) (account : AccountInfo) : ℕ :=
  minimumBalance newLen - account.lamports

/-- The signer pays the rent of the grown account. -/
def topUpRent (minimumBalance : ℕ → ℕ) (newLen : ℕ) (payer : Signer) (account : AccountInfo) :
    Except MigrationFailure (Signer × AccountInfo) := do
  let extra := rentDue minimumBalance newLen account
  require (extra ≤ payer.lamports) .insufficientLamports
  return ({ payer with lamports := payer.lamports - extra },
    { account with lamports := account.lamports + extra })

/-- Signer and account after a migration that wrote the given bytes. -/
def afterMigration (minimumBalance : ℕ → ℕ) (newLen : ℕ) (payer : Signer) (account : AccountInfo)
    (data : List UInt8) : Signer × AccountInfo :=
  ({ payer with lamports := payer.lamports - rentDue minimumBalance newLen account },
    { owner := account.owner, lamports := account.lamports + rentDue minimumBalance newLen account,
      data := data })

/-- The record that the program finds in an account, behind the discriminator of its type. -/
def readAccount {α : Type} (discriminator : List UInt8) (L : Layout α) (data : List UInt8) :
    Option α :=
  if data.take 8 = discriminator then L.read (data.drop 8) else none

theorem readAccount_encode {α : Type} {discriminator : List UInt8} (h : discriminator.length = 8)
    (L : Layout α) (a : α) :
    readAccount discriminator L (discriminator ++ L.encode a) = some a := by
  have hread := L.read_encode_append a []
  rw [List.append_nil] at hread
  rw [readAccount, ← h, List.take_left, if_pos rfl, List.drop_left, hread]

/-- The position of a role in the per-role arrays. -/
def roleIndex : Role → Fin 7
  | .merchant => 0
  | .arbitrator => 1
  | .nodeOperator => 2
  | .notificationProvider => 3
  | .oracleProvider => 4
  | .riskIntelligenceProvider => 5
  | .snapshotProvider => 6

/-- The first eight bytes of `sha256("account:StakingConfig")`. -/
def stakingConfigDiscriminator : List UInt8 := [45, 134, 252, 82, 37, 57, 84, 25]

def stakingProgram : String := "3MF1nAPiECRAGs36RpQTkLb8CvMZuhcgXv1hGZoXEiid"

/-- The configuration in both layouts, which differ in what they say about unbonding. -/
structure StakingRecord (α : Type) where
  admin : Block 32
  mint : Block 32
  minStakeByRole : Fin 7 → UInt64
  unbonding : α
  slashBps : UInt16
  slashingAuthority : Block 32
  slashDestination : Block 32
  rewardsAuthority : Block 32
  bump : UInt8
  stakeVaultBump : UInt8
  rewardsVaultBump : UInt8

/-- With `unbonding_period_secs`, one period for all roles. -/
abbrev FlatStakingConfig := StakingRecord Int64

/-- With `unbonding_period_secs_by_role`. -/
abbrev StoredStakingConfig := StakingRecord (Fin 7 → Int64)

def stakingHead : Layout (Block 32 × Block 32 × (Fin 7 → UInt64)) :=
  (block 32).pair ((block 32).pair (u64.array 7))

def stakingTail :
    Layout (UInt16 × Block 32 × Block 32 × Block 32 × UInt8 × UInt8 × UInt8) :=
  u16.pair ((block 32).pair ((block 32).pair ((block 32).pair (u8.pair (u8.pair u8)))))

def stakingLayout {α : Type} (unbonding : Layout α) : Layout (StakingRecord α) :=
  (stakingHead.pair (unbonding.pair stakingTail)).via
    (fun c => ((c.admin, c.mint, c.minStakeByRole), c.unbonding, c.slashBps,
      c.slashingAuthority, c.slashDestination, c.rewardsAuthority, c.bump, c.stakeVaultBump,
      c.rewardsVaultBump))
    (fun t => ⟨t.1.1, t.1.2.1, t.1.2.2, t.2.1, t.2.2.1, t.2.2.2.1, t.2.2.2.2.1, t.2.2.2.2.2.1,
      t.2.2.2.2.2.2.1, t.2.2.2.2.2.2.2.1, t.2.2.2.2.2.2.2.2⟩)
    fun _ => rfl

def flatStakingLayout : Layout FlatStakingConfig := stakingLayout i64

def storedStakingLayout : Layout StoredStakingConfig := stakingLayout (i64.array 7)

def FlatStakingConfig.bytes (c : FlatStakingConfig) : List UInt8 :=
  stakingConfigDiscriminator ++ flatStakingLayout.encode c

def StoredStakingConfig.bytes (c : StoredStakingConfig) : List UInt8 :=
  stakingConfigDiscriminator ++ storedStakingLayout.encode c

def readStakingConfig (data : List UInt8) : Option StoredStakingConfig :=
  readAccount stakingConfigDiscriminator storedStakingLayout data

def oldAdminOffset : ℕ := 8
def oldUnbondingOffset : ℕ := 8 + 32 + 32 + 8 * 7
def oldTailOffset : ℕ := oldUnbondingOffset + 8
def oldLen : ℕ := oldTailOffset + 2 + 32 * 3 + 1 + 1 + 1
def stakingConfigLen : ℕ := 8 + storedStakingLayout.size

/-- A zero inherits the period that held for all roles. -/
def inheritPeriod (old : Int64) (periods : Fin 7 → Int64) : Fin 7 → Int64 :=
  fun i => if periods i = 0 then old else periods i

/-- The writes to the grown buffer: the discriminator, the periods and the old tail behind
them. -/
def rewriteStakingConfig (data : List UInt8) (migrated : Fin 7 → Int64) : Option (List UInt8) :=
  (overwrite (resize stakingConfigLen data) 0 (data.take 8)).bind fun grown =>
    (overwriteFrom grown oldUnbondingOffset (i64.entries migrated)).bind fun written =>
      overwrite written.1 written.2 (data.drop oldTailOffset)

def migrateStakingConfig (minimumBalance : ℕ → ℕ) (admin : Signer) (account : AccountInfo)
    (unbondingPeriodSecsByRole : Fin 7 → Int64) :
    Except MigrationFailure (Signer × AccountInfo) := do
  require (account.owner = stakingProgram) (.staking .unauthorized)
  require (account.data.length = oldLen) (.staking .alreadyMigrated)
  let storedAdmin := slice oldAdminOffset 32 account.data
  let oldUnbondingPeriodSecs := i64.decode (slice oldUnbondingOffset 8 account.data)
  require (storedAdmin = admin.key.bytes) (.staking .unauthorized)
  let migrated := inheritPeriod oldUnbondingPeriodSecs unbondingPeriodSecsByRole
  -- checked after the inheritance, against what is about to be written
  require (∀ i, 0 < migrated i) (.staking .invalidUnbondingPeriod)
  let funded ← topUpRent minimumBalance stakingConfigLen admin account
  let data ← load (rewriteStakingConfig account.data migrated) .outOfRange
  return (funded.1, { funded.2 with data := data })

def FlatStakingConfig.expand (c : FlatStakingConfig) (periods : Fin 7 → Int64) :
    StoredStakingConfig :=
  { c with unbonding := inheritPeriod c.unbonding periods }

/-- When the migration accepts a configuration in the old layout. -/
structure StakingMigrationAccepts (minimumBalance : ℕ → ℕ) (payer : Signer)
    (account : AccountInfo) (c : FlatStakingConfig) (periods : Fin 7 → Int64) : Prop where
  owner : account.owner = stakingProgram
  admin : c.admin = payer.key
  periods : ∀ i, 0 < inheritPeriod c.unbonding periods i
  rent : rentDue minimumBalance stakingConfigLen account ≤ payer.lamports

section StakingMigration
variable {minimumBalance : ℕ → ℕ} {admin : Signer} {account : AccountInfo}
  {c : FlatStakingConfig} {periods : Fin 7 → Int64}

def FlatStakingConfig.head (c : FlatStakingConfig) : List UInt8 :=
  stakingHead.encode (c.admin, c.mint, c.minStakeByRole)

def FlatStakingConfig.tail (c : FlatStakingConfig) : List UInt8 :=
  stakingTail.encode (c.slashBps, c.slashingAuthority, c.slashDestination, c.rewardsAuthority,
    c.bump, c.stakeVaultBump, c.rewardsVaultBump)

variable (c)

theorem length_head : c.head.length = 32 + (32 + 7 * 8) :=
  stakingHead.length_encode _

theorem length_tail :
    c.tail.length = 2 + (32 + (32 + (32 + (1 + (1 + 1))))) :=
  stakingTail.length_encode _

theorem flat_bytes : c.bytes = stakingConfigDiscriminator ++
    (c.head ++ (i64.encode c.unbonding ++ c.tail)) :=
  rfl

theorem length_flat_bytes : c.bytes.length = oldLen := by
  rw [flat_bytes, List.length_append, List.length_append, List.length_append, length_head,
    length_tail]
  rfl

theorem storedAdmin_eq :
    slice oldAdminOffset 32 c.bytes = c.admin.bytes := by
  change slice 8 32 (stakingConfigDiscriminator ++ ((c.admin.bytes ++ _) ++ _)) = _
  rw [List.append_assoc]
  exact slice_append rfl c.admin.length_eq

theorem length_beforePeriod :
    (stakingConfigDiscriminator ++ c.head).length = oldUnbondingOffset := by
  rw [List.length_append, length_head]
  rfl

theorem oldPeriod_eq :
    slice oldUnbondingOffset 8 c.bytes = i64.encode c.unbonding := by
  exact slice_append (length_beforePeriod c) (i64.length_encode _)

theorem tail_eq : c.bytes.drop oldTailOffset = c.tail := by
  have hlength : (stakingConfigDiscriminator ++ c.head ++
      i64.encode c.unbonding).length = oldTailOffset := by
    rw [List.length_append, length_beforePeriod]
    rfl
  rw [flat_bytes, ← List.append_assoc, ← List.append_assoc, ← hlength, List.drop_left]

/-- Between the head and the end the grown buffer has room for the periods and the tail. -/
theorem resize_flat :
    ∃ room rest, resize stakingConfigLen c.bytes =
        stakingConfigDiscriminator ++ (c.head ++ (room ++ rest)) ∧
      room.length = 7 * 8 ∧ rest.length = c.tail.length := by
  obtain ⟨all, hall⟩ : ∃ all, all = i64.encode c.unbonding ++ (c.tail ++
      List.replicate (stakingConfigLen - oldLen) 0) := ⟨_, rfl⟩
  have hlength : all.length = 7 * 8 + c.tail.length := by
    rw [hall, List.length_append, List.length_append, length_tail]
    rfl
  refine ⟨all.take (7 * 8), all.drop (7 * 8), ?_, ?_, ?_⟩
  · rw [resize_of_le ((length_flat_bytes c).trans_le (by decide)), length_flat_bytes, flat_bytes,
      hall]
    simp
  · rw [List.length_take, hlength]
    exact Nat.min_eq_left (Nat.le_add_right _ _)
  · rw [List.length_drop, hlength]
    exact Nat.add_sub_cancel_left _ _

theorem rewriteStakingConfig_bytes (p : Fin 7 → Int64) :
    rewriteStakingConfig c.bytes p =
      some (StoredStakingConfig.bytes { c with unbonding := p }) := by
  obtain ⟨room, rest, hgrown, hroom, hrest⟩ := resize_flat c
  have hentries : (i64.entries p).flatten.length = room.length :=
    (i64.length_entries_flatten p).trans hroom.symm
  have hbehind : (stakingConfigDiscriminator ++ c.head ++ (i64.entries p).flatten).length =
      oldUnbondingOffset + room.length := by
    rw [List.length_append, length_beforePeriod, hentries]
  have hfirst : overwrite (resize stakingConfigLen c.bytes) 0 (c.bytes.take 8) =
      some (stakingConfigDiscriminator ++ c.head ++ (room ++ rest)) := by
    rw [hgrown, List.append_assoc]
    exact @overwrite_append [] _ _ _ 0 rfl rfl
  have hlast : overwrite (stakingConfigDiscriminator ++ c.head ++ ((i64.entries p).flatten ++ rest))
      (oldUnbondingOffset + room.length) c.tail = some (stakingConfigDiscriminator ++ c.head ++
        (i64.entries p).flatten ++ (c.tail ++ [])) := by
    rw [← List.append_assoc, ← List.append_nil rest]
    exact overwrite_append hbehind hrest.symm
  rw [rewriteStakingConfig, hfirst, Option.bind_some,
    overwriteFrom_append _ (length_beforePeriod c) hentries, Option.bind_some, tail_eq, hlast,
    List.append_nil, List.append_assoc, List.append_assoc]
  rfl

theorem block_bytes_inj {count : ℕ} {a b : Block count} : a.bytes = b.bytes ↔ a = b :=
  (block count).encode_injective.eq_iff

variable {c}

theorem migrateStakingConfig_ok_iff (hdata : account.data = c.bytes) (r : Signer × AccountInfo) :
    migrateStakingConfig minimumBalance admin account periods = .ok r ↔
      StakingMigrationAccepts minimumBalance admin account c periods ∧
      r = afterMigration minimumBalance stakingConfigLen admin account
        (c.expand periods).bytes := by
  simp only [migrateStakingConfig, topUpRent, bind_ok, require_ok, load_ok, pure_ok, exists_const,
    hdata, length_flat_bytes, storedAdmin_eq, oldPeriod_eq, i64.decode_encode,
    rewriteStakingConfig_bytes, block_bytes_inj]
  constructor
  · rintro ⟨howner, -, hadmin, hperiods, _, ⟨hrent, rfl⟩, _, hbytes, rfl⟩
    obtain rfl := Option.some.inj hbytes
    exact ⟨⟨howner, hadmin, hperiods, hrent⟩, rfl⟩
  · rintro ⟨⟨howner, hadmin, hperiods, hrent⟩, rfl⟩
    exact ⟨howner, trivial, hadmin, hperiods, _, ⟨hrent, rfl⟩, _, rfl, rfl⟩

end StakingMigration

example : oldLen = 237 ∧ stakingConfigLen = oldLen + 8 * (7 - 1) := by decide

def base58Alphabet : List Char :=
  "123456789ABCDEFGHJKLMNPQRSTUVWXYZabcdefghijkmnopqrstuvwxyz".toList

def pubkey (address : String) : Block 32 :=
  ⟨bigEndian 32 (address.toList.foldl (fun n c => 58 * n + base58Alphabet.idxOf c) 0),
    length_bigEndian 32 _⟩

def defaultSettlementMintKeys : List (Block 32) :=
  [pubkey "So11111111111111111111111111111111111111112",
    pubkey "2bHPi5hA4zrmPAfrvLmEexg3KJjpTjNkUcxWnzUPeRRU",
    pubkey "C4rSGhdxWhSFQuFcAxQti1JvBxriwHJoHtJjfhs5p24Y",
    pubkey "SK1JEbfsjjTG2WELNirmM7iJVcdnwerqfF32kCnoWsM"]

/-- A list of mints in an array of `maxSettlementMints`, filled up with the default key. -/
def paddedMints (mints : List (Block 32)) : Fin maxSettlementMints → Block 32 :=
  fun slot => mints[slot.val]?.getD (.zero 32)

/-- The first eight bytes of `sha256("account:FeeConfig")`. -/
def feeConfigDiscriminator : List UInt8 := [143, 52, 146, 187, 219, 123, 76, 155]

def escrowProgram : String := "CYdn27x69hQ8WBxBeWRGpr9c8B4dcKj8GvyBn6Sdma9s"

/-- The configuration as it was first deployed. -/
structure FeeConfigV1 where
  admin : Block 32
  adListingFee : UInt64
  disputeFilingFee : UInt64
  settlementFeeBps : UInt16
  devTreasury : Block 32
  ecosystemTreasury : Block 32
  infraTreasury : Block 32
  emergencyReserve : Block 32
  devTreasuryBps : UInt16
  ecosystemTreasuryBps : UInt16
  infraTreasuryBps : UInt16
  emergencyReserveBps : UInt16
  timeoutSecs : Int64
  bump : UInt8
deriving DecidableEq, Repr

/-- The configuration with the two gates for arbitrators. -/
structure FeeConfigV2 extends FeeConfigV1 where
  minArbitratorStakeAgeSecs : Int64
  arbitratorSortitionBps : UInt16
deriving DecidableEq, Repr

structure StoredFeeConfig extends FeeConfigV2 where
  settlementMints : Fin maxSettlementMints → Block 32
  settlementMintCount : UInt8

def feeConfigV1Layout : Layout FeeConfigV1 :=
  ((block 32).pair (u64.pair (u64.pair (u16.pair ((block 32).pair ((block 32).pair ((block 32).pair
    ((block 32).pair (u16.pair (u16.pair (u16.pair (u16.pair (i64.pair u8))))))))))))).via
    (fun c => (c.admin, c.adListingFee, c.disputeFilingFee, c.settlementFeeBps, c.devTreasury,
      c.ecosystemTreasury, c.infraTreasury, c.emergencyReserve, c.devTreasuryBps,
      c.ecosystemTreasuryBps, c.infraTreasuryBps, c.emergencyReserveBps, c.timeoutSecs, c.bump))
    (fun t => ⟨t.1, t.2.1, t.2.2.1, t.2.2.2.1, t.2.2.2.2.1, t.2.2.2.2.2.1, t.2.2.2.2.2.2.1,
      t.2.2.2.2.2.2.2.1, t.2.2.2.2.2.2.2.2.1, t.2.2.2.2.2.2.2.2.2.1, t.2.2.2.2.2.2.2.2.2.2.1,
      t.2.2.2.2.2.2.2.2.2.2.2.1, t.2.2.2.2.2.2.2.2.2.2.2.2.1, t.2.2.2.2.2.2.2.2.2.2.2.2.2⟩)
    fun _ => rfl

def gatesLayout : Layout (Int64 × UInt16) := i64.pair u16

def allowlistLayout : Layout ((Fin maxSettlementMints → Block 32) × UInt8) :=
  ((block 32).array maxSettlementMints).pair u8

def feeConfigV2Layout : Layout FeeConfigV2 :=
  (feeConfigV1Layout.pair gatesLayout).via
    (fun c => (c.toFeeConfigV1, c.minArbitratorStakeAgeSecs, c.arbitratorSortitionBps))
    (fun t => ⟨t.1, t.2.1, t.2.2⟩) fun _ => rfl

def storedFeeLayout : Layout StoredFeeConfig :=
  (feeConfigV2Layout.pair allowlistLayout).via
    (fun c => (c.toFeeConfigV2, c.settlementMints, c.settlementMintCount))
    (fun t => ⟨t.1, t.2.1, t.2.2⟩) fun _ => rfl

def FeeConfigV1.bytes (c : FeeConfigV1) : List UInt8 :=
  feeConfigDiscriminator ++ feeConfigV1Layout.encode c

def FeeConfigV2.bytes (c : FeeConfigV2) : List UInt8 :=
  feeConfigDiscriminator ++ feeConfigV2Layout.encode c

def StoredFeeConfig.bytes (c : StoredFeeConfig) : List UInt8 :=
  feeConfigDiscriminator ++ storedFeeLayout.encode c

def readFeeConfig (data : List UInt8) : Option StoredFeeConfig :=
  readAccount feeConfigDiscriminator storedFeeLayout data

def lenV1 : ℕ := 203
def lenV2 : ℕ := lenV1 + 10
def feeConfigLen : ℕ := 8 + storedFeeLayout.size

example : feeConfigLen = lenV2 + 32 * maxSettlementMints + 1 := by decide

/-- Both gates are written as disabled where the old layout had none. -/
def writeGates (oldLen : ℕ) (data : List UInt8) : Option (List UInt8) :=
  if oldLen = lenV1 then
    (overwrite data lenV1 (i64.encode 0)).bind fun data => overwrite data (lenV1 + 8) (u16.encode 0)
  else some data

def migrateFeeConfig (minimumBalance : ℕ → ℕ) (payer : Signer) (account : AccountInfo) :
    Except MigrationFailure (Signer × AccountInfo) := do
  require (account.owner = escrowProgram) (.escrow .unauthorized)
  require (account.data.length = lenV1 ∨ account.data.length = lenV2) .feeConfigAlreadyMigrated
  require (account.data.take 8 = feeConfigDiscriminator) (.escrow .unauthorized)
  let funded ← topUpRent minimumBalance feeConfigLen payer account
  let data := resize feeConfigLen account.data
  let data ← load (writeGates account.data.length data) .outOfRange
  let written ← load (overwriteFrom data lenV2
    ((block 32).entries (paddedMints defaultSettlementMintKeys))) .outOfRange
  let cursor := written.2
  let data ← load (overwrite written.1 cursor [UInt8.ofNat defaultSettlementMintKeys.length])
    .outOfRange
  let cursor := cursor + 1
  require (cursor = feeConfigLen) (.escrow .overflow)
  return (funded.1, { funded.2 with data := data })

def FeeConfigV1.ungated (c : FeeConfigV1) : FeeConfigV2 where
  toFeeConfigV1 := c
  minArbitratorStakeAgeSecs := 0
  arbitratorSortitionBps := 0

def FeeConfigV2.listed (c : FeeConfigV2) : StoredFeeConfig where
  toFeeConfigV2 := c
  settlementMints := paddedMints defaultSettlementMintKeys
  settlementMintCount := UInt8.ofNat defaultSettlementMintKeys.length

/-- When the migration accepts a configuration in one of the old layouts. -/
structure FeeMigrationAccepts (minimumBalance : ℕ → ℕ) (payer : Signer) (account : AccountInfo) :
    Prop where
  owner : account.owner = escrowProgram
  rent : rentDue minimumBalance feeConfigLen account ≤ payer.lamports

section FeeMigration
variable {minimumBalance : ℕ → ℕ} {payer : Signer} {account : AccountInfo}

theorem length_v1_bytes (c : FeeConfigV1) : c.bytes.length = lenV1 := by
  rw [FeeConfigV1.bytes, List.length_append, feeConfigV1Layout.length_encode]
  rfl

theorem length_v2_bytes (c : FeeConfigV2) : c.bytes.length = lenV2 := by
  rw [FeeConfigV2.bytes, List.length_append, feeConfigV2Layout.length_encode]
  rfl

theorem ungated_bytes (c : FeeConfigV1) :
    c.ungated.bytes = c.bytes ++ (i64.encode 0 ++ u16.encode 0) :=
  (List.append_assoc _ _ _).symm

theorem listed_bytes (c : FeeConfigV2) :
    c.listed.bytes = c.bytes ++
      (((block 32).entries (paddedMints defaultSettlementMintKeys)).flatten ++
        [UInt8.ofNat defaultSettlementMintKeys.length]) :=
  (List.append_assoc _ _ _).symm

def allowlistRoom : List UInt8 := List.replicate (maxSettlementMints * 32 + 1) 0

theorem writeGates_v1 (c : FeeConfigV1) :
    writeGates lenV1 (resize feeConfigLen c.bytes) = some (c.ungated.bytes ++ allowlistRoom) := by
  have hgrown : resize feeConfigLen c.bytes =
      c.bytes ++ (List.replicate 8 0 ++ (List.replicate 2 0 ++ allowlistRoom)) := by
    rw [resize_of_le ((length_v1_bytes c).trans_le (by decide)), length_v1_bytes, allowlistRoom,
      List.replicate_append_replicate, List.replicate_append_replicate]
    exact congrArg (c.bytes ++ List.replicate · 0) (by decide)
  have hbehind : (c.bytes ++ i64.encode 0).length = lenV1 + 8 := by
    rw [List.length_append, length_v1_bytes]
    rfl
  have hage : overwrite (resize feeConfigLen c.bytes) lenV1 (i64.encode 0) =
      some (c.bytes ++ i64.encode 0 ++ (List.replicate 2 0 ++ allowlistRoom)) := by
    rw [hgrown, List.append_assoc]
    exact overwrite_append (length_v1_bytes c) rfl
  have hbps : overwrite (c.bytes ++ i64.encode 0 ++ (List.replicate 2 0 ++ allowlistRoom))
      (lenV1 + 8) (u16.encode 0) =
        some (c.bytes ++ i64.encode 0 ++ (u16.encode 0 ++ allowlistRoom)) :=
    overwrite_append hbehind rfl
  rw [writeGates, if_pos rfl, hage, Option.bind_some, hbps, ungated_bytes]
  simp

theorem writeGates_v2 (c : FeeConfigV2) :
    writeGates lenV2 (resize feeConfigLen c.bytes) = some (c.bytes ++ allowlistRoom) := by
  rw [resize_of_le ((length_v2_bytes c).trans_le (by decide)), length_v2_bytes]
  exact congrArg (fun n => some (c.bytes ++ List.replicate n 0)) (by decide)

theorem writeAllowlist (c : FeeConfigV2) :
    ∃ data, overwriteFrom (c.bytes ++ allowlistRoom) lenV2
        ((block 32).entries (paddedMints defaultSettlementMintKeys)) =
        some (data, lenV2 + maxSettlementMints * 32) ∧
      overwrite data (lenV2 + maxSettlementMints * 32)
        [UInt8.ofNat defaultSettlementMintKeys.length] = some c.listed.bytes := by
  obtain ⟨chunks, hchunks⟩ : ∃ chunks, chunks =
    (block 32).entries (paddedMints defaultSettlementMintKeys) := ⟨_, rfl⟩
  obtain ⟨room, hroom⟩ : ∃ room : List UInt8, room = List.replicate (maxSettlementMints * 32) 0 :=
    ⟨_, rfl⟩
  have hsplit : allowlistRoom = room ++ [0] := by
    rw [hroom, allowlistRoom, List.replicate_succ']
  have hlength : room.length = maxSettlementMints * 32 := by
    rw [hroom, List.length_replicate]
  have hflatten : chunks.flatten.length = room.length := by
    rw [hchunks, hlength]
    exact (block 32).length_entries_flatten _
  have hbehind : (c.bytes ++ chunks.flatten).length = lenV2 + maxSettlementMints * 32 := by
    rw [List.length_append, length_v2_bytes, hflatten, hlength]
  refine ⟨c.bytes ++ (chunks.flatten ++ [0]), ?_, ?_⟩
  · rw [← hchunks, hsplit, overwriteFrom_append _ (length_v2_bytes c) hflatten, hlength]
  · have hcount : overwrite (c.bytes ++ chunks.flatten ++ ([0] ++ []))
        (lenV2 + maxSettlementMints * 32) [UInt8.ofNat defaultSettlementMintKeys.length] =
        some (c.bytes ++ chunks.flatten ++
          ([UInt8.ofNat defaultSettlementMintKeys.length] ++ [])) :=
      overwrite_append hbehind rfl
    rw [listed_bytes, ← hchunks, ← List.append_assoc, ← List.append_assoc]
    exact hcount

variable (minimumBalance payer account) in
/-- The migration succeeds on what it accepts, and writes the given record. -/
def FeeMigratesTo (stored : StoredFeeConfig) : Prop :=
  ∀ r, migrateFeeConfig minimumBalance payer account = .ok r ↔
    FeeMigrationAccepts minimumBalance payer account ∧
    r = afterMigration minimumBalance feeConfigLen payer account stored.bytes

/-- From an account of an old length whose bytes and gates are those of a record of the second
layout. -/
theorem migrateFeeConfig_ok_iff {c : FeeConfigV2}
    (hlength : account.data.length = lenV1 ∨ account.data.length = lenV2)
    (hdiscriminator : account.data.take 8 = feeConfigDiscriminator)
    (hgates : writeGates account.data.length (resize feeConfigLen account.data) =
      some (c.bytes ++ allowlistRoom)) :
    FeeMigratesTo minimumBalance payer account c.listed := by
  intro r
  obtain ⟨data, hslots, hcount⟩ := writeAllowlist c
  have hend : lenV2 + maxSettlementMints * 32 + 1 = feeConfigLen := by decide
  simp only [migrateFeeConfig, topUpRent, bind_ok, require_ok, load_ok, pure_ok, exists_const,
    hlength, hdiscriminator, hgates, Option.some.injEq, exists_eq_left', hslots, hcount, hend,
    true_and]
  constructor
  · rintro ⟨howner, _, ⟨hrent, rfl⟩, rfl⟩
    exact ⟨⟨howner, hrent⟩, rfl⟩
  · rintro ⟨⟨howner, hrent⟩, rfl⟩
    exact ⟨howner, _, ⟨hrent, rfl⟩, rfl⟩

theorem migrateFeeConfig_v1_ok_iff {c : FeeConfigV1} (hdata : account.data = c.bytes) :
    FeeMigratesTo minimumBalance payer account c.ungated.listed := by
  have hlength : account.data.length = lenV1 := hdata ▸ length_v1_bytes c
  refine migrateFeeConfig_ok_iff (.inl hlength) ?_ ?_
  · rw [hdata]
    exact List.take_left' rfl
  · rw [hlength, hdata, writeGates_v1]

theorem migrateFeeConfig_v2_ok_iff {c : FeeConfigV2} (hdata : account.data = c.bytes) :
    FeeMigratesTo minimumBalance payer account c.listed := by
  have hlength : account.data.length = lenV2 := hdata ▸ length_v2_bytes c
  refine migrateFeeConfig_ok_iff (.inr hlength) ?_ ?_
  · rw [hdata]
    exact List.take_left' rfl
  · rw [hlength, hdata, writeGates_v2]

end FeeMigration

section Refusal
variable {minimumBalance : ℕ → ℕ} {signer : Signer} {account : AccountInfo}

theorem migrateStakingConfig_refused (h : account.data.length = stakingConfigLen)
    (periods : Fin 7 → Int64) :
    migrateStakingConfig minimumBalance signer account periods =
      .error (if account.owner = stakingProgram then .staking .alreadyMigrated
        else .staking .unauthorized) :=
  second_require_error (h ▸ by decide) _ _ _

theorem migrateFeeConfig_refused (h : account.data.length = feeConfigLen) :
    migrateFeeConfig minimumBalance signer account =
      .error (if account.owner = escrowProgram then .feeConfigAlreadyMigrated
        else .escrow .unauthorized) :=
  second_require_error (h ▸ by decide) _ _ _

theorem length_stored_staking_bytes (c : StoredStakingConfig) :
    c.bytes.length = stakingConfigLen := by
  rw [StoredStakingConfig.bytes, List.length_append, storedStakingLayout.length_encode]
  rfl

theorem length_stored_fee_bytes (c : StoredFeeConfig) : c.bytes.length = feeConfigLen := by
  rw [StoredFeeConfig.bytes, List.length_append, storedFeeLayout.length_encode]
  rfl

end Refusal

section Loaded
variable (K : Block 32 → Pubkey) {minimumBalance : ℕ → ℕ} {admin : Signer}
  {account : AccountInfo} {c : FlatStakingConfig} {periods : Fin 7 → Int64}
  {w : ChainWorld.World}

def StakingRecord.load {α : Type} (c : StakingRecord α) (periods : UnbondingPeriods)
    (h : c.slashBps.toNat ≤ StakingAccounts.bpsDenominator) : StakingConfig where
  admin := K c.admin
  mint := K c.mint
  minStakeByRole r := (c.minStakeByRole (roleIndex r)).toNat
  unbondingPeriods := periods
  slashBps := c.slashBps.toNat
  slashingAuthority := K c.slashingAuthority
  slashDestination := K c.slashDestination
  rewardsAuthority := K c.rewardsAuthority
  slashBps_le := h

theorem toInt_inheritPeriod (old : Int64) (periods : Fin 7 → Int64) (i : Fin 7) :
    (inheritPeriod old periods i).toInt =
      if (periods i).toInt = 0 then old.toInt else (periods i).toInt := by
  have hzero : (periods i).toInt = 0 ↔ periods i = 0 :=
    ⟨fun h => Int64.toInt_inj.mp h, fun h => h ▸ rfl⟩
  unfold inheritPeriod
  simp only [hzero]
  split_ifs <;> rfl

/-- What the migration writes loads as the record that the migration of the loaded record
returns. -/
theorem migrateStakingConfig_loaded (h : c.slashBps.toNat ≤ StakingAccounts.bpsDenominator)
    (haccepts : StakingMigrationAccepts minimumBalance admin account c periods)
    (hw : w.stakingConfig = some (c.load K (.single c.unbonding.toInt) h)) :
    StakingInstructions.migrateStakingConfig w (K admin.key)
        (fun r => (periods (roleIndex r)).toInt) =
      .ok { w with stakingConfig := some ((c.expand periods).load K
        (.byRole fun r => ((c.expand periods).unbonding (roleIndex r)).toInt) h) } := by
  have hpositive : ∀ r : Role, 0 < if (periods (roleIndex r)).toInt = 0 then
      c.unbonding.toInt else (periods (roleIndex r)).toInt := by
    intro r
    rw [← toInt_inheritPeriod]
    exact Int64.lt_iff_toInt_lt.mp (haccepts.periods (roleIndex r))
  simp only [StakingInstructions.migrateStakingConfig,
    StakingInstructions.requireValidUnbondingPeriods, bind_ok, load_ok, require_ok, pure_ok,
    exists_const, hw, FlatStakingConfig.expand, toInt_inheritPeriod]
  exact ⟨c.load K _ h, rfl, c.unbonding.toInt, rfl, congrArg K haccepts.admin,
    fun r _ => hpositive r, rfl⟩

end Loaded

/-- The migration succeeds on what it accepts, the program reads the given record from the bytes
written, and the account is not migrated again. -/
def StakingMigrationYields (minimumBalance : ℕ → ℕ) (signer : Signer) (account : AccountInfo)
    (c : FlatStakingConfig) (periods : Fin 7 → Int64) (stored : StoredStakingConfig) : Prop :=
  ((∃ r, migrateStakingConfig minimumBalance signer account periods = .ok r) ↔
    StakingMigrationAccepts minimumBalance signer account c periods) ∧
  ∀ r, migrateStakingConfig minimumBalance signer account periods = .ok r →
    readStakingConfig r.2.data = some stored ∧
    ∀ signer' periods', migrateStakingConfig minimumBalance signer' r.2 periods' =
      .error (.staking .alreadyMigrated)

def FeeMigrationYields (minimumBalance : ℕ → ℕ) (signer : Signer) (account : AccountInfo)
    (stored : StoredFeeConfig) : Prop :=
  ((∃ r, migrateFeeConfig minimumBalance signer account = .ok r) ↔
    FeeMigrationAccepts minimumBalance signer account) ∧
  ∀ r, migrateFeeConfig minimumBalance signer account = .ok r →
    readFeeConfig r.2.data = some stored ∧
    ∀ signer', migrateFeeConfig minimumBalance signer' r.2 = .error .feeConfigAlreadyMigrated

section Yields
variable {minimumBalance : ℕ → ℕ} {signer : Signer} {account : AccountInfo}

theorem staking_yields {c : FlatStakingConfig} (hdata : account.data = c.bytes)
    (periods : Fin 7 → Int64) :
    StakingMigrationYields minimumBalance signer account c periods (c.expand periods) := by
  refine ⟨⟨fun ⟨r, hr⟩ => ((migrateStakingConfig_ok_iff hdata r).mp hr).1,
    fun haccepts => ⟨_, (migrateStakingConfig_ok_iff hdata _).mpr ⟨haccepts, rfl⟩⟩⟩, fun r hr => ?_⟩
  obtain ⟨haccepts, rfl⟩ := (migrateStakingConfig_ok_iff hdata r).mp hr
  refine ⟨readAccount_encode rfl _ _, fun signer' periods' => ?_⟩
  rw [migrateStakingConfig_refused (length_stored_staking_bytes _)]
  exact congrArg Except.error (if_pos haccepts.owner)

theorem fee_yields {stored : StoredFeeConfig}
    (h : FeeMigratesTo minimumBalance signer account stored) :
    FeeMigrationYields minimumBalance signer account stored := by
  refine ⟨⟨fun ⟨r, hr⟩ => ((h r).mp hr).1, fun haccepts => ⟨_, (h _).mpr ⟨haccepts, rfl⟩⟩⟩,
    fun r hr => ?_⟩
  obtain ⟨haccepts, rfl⟩ := (h r).mp hr
  refine ⟨readAccount_encode rfl _ _, fun signer' => ?_⟩
  rw [migrateFeeConfig_refused (length_stored_fee_bytes _)]
  exact congrArg Except.error (if_pos haccepts.owner)

end Yields

/-- Each migration turns every record of an old layout, with every input that it accepts, into
the bytes that the program reads as the same record with the new fields, and refuses every
account of the new length. -/
theorem migrations_preserve (minimumBalance : ℕ → ℕ) (signer : Signer) (account : AccountInfo) :
    (∀ (c : FlatStakingConfig) (periods : Fin 7 → Int64), account.data = c.bytes →
      c.bytes.length = 237 ∧
      StakingMigrationYields minimumBalance signer account c periods (c.expand periods)) ∧
    (∀ c : FeeConfigV1, account.data = c.bytes →
      c.bytes.length = 203 ∧
      FeeMigrationYields minimumBalance signer account c.ungated.listed) ∧
    (∀ c : FeeConfigV2, account.data = c.bytes →
      c.bytes.length = 213 ∧ FeeMigrationYields minimumBalance signer account c.listed) ∧
    (account.data.length = stakingConfigLen →
      ∀ periods r, migrateStakingConfig minimumBalance signer account periods ≠ .ok r) ∧
    (account.data.length = feeConfigLen →
      ∀ r, migrateFeeConfig minimumBalance signer account ≠ .ok r) := by
  refine ⟨fun c periods hdata => ⟨length_flat_bytes c, staking_yields hdata periods⟩,
    fun c hdata => ⟨length_v1_bytes c, fee_yields (migrateFeeConfig_v1_ok_iff hdata)⟩,
    fun c hdata => ⟨length_v2_bytes c, fee_yields (migrateFeeConfig_v2_ok_iff hdata)⟩,
    fun hlength periods r hr => ?_, fun hlength r hr => ?_⟩
  · rw [migrateStakingConfig_refused hlength] at hr
    cases hr
  · rw [migrateFeeConfig_refused hlength] at hr
    cases hr

def weeklyConfig : FlatStakingConfig where
  admin := .zero 32
  mint := .zero 32
  minStakeByRole _ := 500
  unbonding := 604800
  slashBps := 500
  slashingAuthority := .zero 32
  slashDestination := .zero 32
  rewardsAuthority := .zero 32
  bump := 255
  stakeVaultBump := 254
  rewardsVaultBump := 253

def deployedFees : FeeConfigV1 where
  admin := .zero 32
  adListingFee := 100
  disputeFilingFee := 50
  settlementFeeBps := 85
  devTreasury := .zero 32
  ecosystemTreasury := .zero 32
  infraTreasury := .zero 32
  emergencyReserve := .zero 32
  devTreasuryBps := 4000
  ecosystemTreasuryBps := 3000
  infraTreasuryBps := 2000
  emergencyReserveBps := 1000
  timeoutSecs := 3600
  bump := 255

/-- The period of a merchant is cut to a day, and the others inherit the week; the fees are
migrated from both old layouts. -/
theorem migrations_preserve_deployed :
    (∃ r, migrateStakingConfig (fun len => 10 * len) ⟨.zero 32, 480⟩
        ⟨stakingProgram, 2370, weeklyConfig.bytes⟩ (fun i => if i = 0 then 86400 else 0) = .ok r ∧
      readStakingConfig r.2.data =
        some (weeklyConfig.expand fun i => if i = 0 then 86400 else 0) ∧
      ∀ periods r', migrateStakingConfig (fun len => 10 * len) ⟨.zero 32, 480⟩ r.2 periods ≠
        .ok r') ∧
    (∃ r, migrateFeeConfig (fun len => 10 * len) ⟨.zero 32, 5230⟩
        ⟨escrowProgram, 2030, deployedFees.bytes⟩ = .ok r ∧
      readFeeConfig r.2.data = some deployedFees.ungated.listed ∧
      ∀ r', migrateFeeConfig (fun len => 10 * len) ⟨.zero 32, 5230⟩ r.2 ≠ .ok r') ∧
    (∃ r, migrateFeeConfig (fun len => 10 * len) ⟨.zero 32, 5230⟩
        ⟨escrowProgram, 2130, deployedFees.ungated.bytes⟩ = .ok r ∧
      readFeeConfig r.2.data = some deployedFees.ungated.listed) := by
  obtain ⟨-, haccepts, hyields⟩ := (migrations_preserve (fun len => 10 * len) ⟨.zero 32, 480⟩
    ⟨stakingProgram, 2370, weeklyConfig.bytes⟩).1 weeklyConfig
    (fun i => if i = 0 then 86400 else 0) rfl
  obtain ⟨-, haccepts₁, hyields₁⟩ := (migrations_preserve (fun len => 10 * len) ⟨.zero 32, 5230⟩
    ⟨escrowProgram, 2030, deployedFees.bytes⟩).2.1 deployedFees rfl
  obtain ⟨-, haccepts₂, hyields₂⟩ := (migrations_preserve (fun len => 10 * len) ⟨.zero 32, 5230⟩
    ⟨escrowProgram, 2130, deployedFees.ungated.bytes⟩).2.2.1 deployedFees.ungated rfl
  obtain ⟨r, hr⟩ := haccepts.mpr ⟨rfl, rfl, by decide, by decide⟩
  obtain ⟨r₁, hr₁⟩ := haccepts₁.mpr ⟨rfl, by decide⟩
  obtain ⟨r₂, hr₂⟩ := haccepts₂.mpr ⟨rfl, by decide⟩
  refine ⟨⟨r, hr, (hyields r hr).1, fun periods r' hagain => ?_⟩,
    ⟨r₁, hr₁, (hyields₁ r₁ hr₁).1, fun r' hagain => ?_⟩, ⟨r₂, hr₂, (hyields₂ r₂ hr₂).1⟩⟩
  · rw [(hyields r hr).2] at hagain
    cases hagain
  · rw [(hyields₁ r₁ hr₁).2] at hagain
    cases hagain

end OpenFiat.ConfigMigration
