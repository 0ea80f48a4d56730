import OpenFiat.TokenLedger
import OpenFiat.StakingAccounts
import OpenFiat.Sortition

/-!
# The chain as the programs see it

One `World` holds every account the escrow and the staking program read or write,
the token ledger they share, the two sysvars and governance's ban list. Accounts
at derived addresses are stored under their seeds. A handler takes the world and
its arguments and returns the next world or the failure that reverts the whole
transaction. Mint accounts carry no data that the programs depend on, so a mint
is its address. Rent, lamports and emitted events are not modelled.
-/
namespace OpenFiat.ChainWorld
open GuardedResult FiniteTable TokenLedger ProgramAddress EscrowAccounts StakingAccounts

/-- Failures raised by account loading and by account constraints without a
program error code of their own. -/
inductive AnchorError where
  | accountNotInitialized
  | accountDidNotDeserialize
  | accountInUse
  | constraintSeeds
  | constraintHasOne
  | constraintRaw
  /-- Two mutable accounts of one instruction are the same account. -/
  | constraintDuplicateMutableAccount
  | instructionDidNotDeserialize
deriving DecidableEq, Repr

/-- Operations that abort a transaction when they are out of range. -/
inductive Panic where
  | subtraction
  | addition
  | index
deriving DecidableEq, Repr

/-- Why a transaction reverted; `panicked` is an aborted unchecked operation. -/
inductive Failure where
  | anchor (e : AnchorError)
  | escrow (e : EscrowError)
  | staking (e : StakingError)
  | token (e : TransferError Pubkey)
  | panicked (p : Panic)
deriving DecidableEq, Repr

structure World where
  clock : ℤ
  slotHashes : List UInt8
  tokens : Ledger Pubkey
  banned : Pubkey → Bool
  feeConfig : Option FeeConfig
  arbitrationPolicy : Option ArbitrationPolicy
  liquidityVaults : Table (Pubkey × Pubkey) LiquidityVault
  tradeEscrows : Table ℕ TradeEscrowVault
  disputeCases : Table ℕ DisputeCase
  recoveryClaims : Table (Pubkey × Pubkey) StakeRecoveryClaim
  stakingConfig : Option StakingConfig
  stakeAccounts : Table (Pubkey × Role) StakeAccount
  recoveryReceipts : Table Pubkey StakeRecoveryReceipt

namespace World

def setLiquidityVault (w : World) (merchant mint : Pubkey) (v : LiquidityVault) : World :=
  { w with liquidityVaults := w.liquidityVaults.insert (merchant, mint) v }

def setTradeEscrow (w : World) (reservationId : ℕ) (e : TradeEscrowVault) : World :=
  { w with tradeEscrows := w.tradeEscrows.insert reservationId e }

def setDisputeCase (w : World) (reservationId : ℕ) (c : DisputeCase) : World :=
  { w with disputeCases := w.disputeCases.insert reservationId c }

def setRecoveryClaim (w : World) (merchant mint : Pubkey) (c : StakeRecoveryClaim) : World :=
  { w with recoveryClaims := w.recoveryClaims.insert (merchant, mint) c }

def setStakeAccount (w : World) (owner : Pubkey) (role : Role) (s : StakeAccount) : World :=
  { w with stakeAccounts := w.stakeAccounts.insert (owner, role) s }

end World

section Errors
variable {α : Type}

/-- A failed token instruction reverts the transaction that invoked it. -/
def invoke (x : Except (TransferError Pubkey) α) : Except Failure α := x.mapError .token

def raiseEscrow (x : Except EscrowError α) : Except Failure α := x.mapError .escrow

@[simp] theorem invoke_ok (x : Except (TransferError Pubkey) α) (a : α) :
    invoke x = .ok a ↔ x = .ok a := by
  cases x <;> simp [invoke, Except.mapError]

theorem invoke_error (x : Except (TransferError Pubkey) α) (e : Failure) :
    invoke x = .error e ↔ ∃ e', x = .error e' ∧ .token e' = e := by
  cases x <;> simp [invoke, Except.mapError]

@[simp] theorem raiseEscrow_ok (x : Except EscrowError α) (a : α) :
    raiseEscrow x = .ok a ↔ x = .ok a := by
  cases x <;> simp [raiseEscrow, Except.mapError]

theorem raiseEscrow_error (x : Except EscrowError α) (e : Failure) :
    raiseEscrow x = .error e ↔ ∃ e', x = .error e' ∧ .escrow e' = e := by
  cases x <;> simp [raiseEscrow, Except.mapError]

end Errors

def loadFeeConfig (w : World) : Except Failure FeeConfig :=
  load w.feeConfig (.anchor .accountNotInitialized)

def loadTokenAccount (w : World) (k : Pubkey) : Except Failure (TokenAccount Pubkey) :=
  load (w.tokens.accounts.lookup k) (.anchor .accountNotInitialized)

def loadLiquidityVault (w : World) (merchant mint : Pubkey) : Except Failure LiquidityVault :=
  load (w.liquidityVaults.lookup (merchant, mint)) (.anchor .accountNotInitialized)

/-- An escrow's address is checked against the reservation id stored in it. -/
def loadTradeEscrow (w : World) (reservationId : ℕ) : Except Failure TradeEscrowVault := do
  let e ← load (w.tradeEscrows.lookup reservationId) (.anchor .accountNotInitialized)
  require (e.reservationId = reservationId) (.anchor .constraintSeeds)
  return e

def loadDisputeCase (w : World) (reservationId : ℕ) : Except Failure DisputeCase := do
  let c ← load (w.disputeCases.lookup reservationId) (.anchor .accountNotInitialized)
  require (c.reservationId = reservationId) (.anchor .constraintSeeds)
  return c

def loadStakingConfig (w : World) : Except Failure (StakingConfig × (Role → ℤ)) := do
  let c ← load w.stakingConfig (.anchor .accountNotInitialized)
  match c.unbondingPeriods with
  | .byRole secs => return (c, secs)
  | .single _ => .error (.anchor .accountDidNotDeserialize)

/-- A stake account in the current layout, with its age clock. -/
def loadStakeAccount (w : World) (owner : Pubkey) (role : Role) :
    Except Failure (StakeAccount × ℤ) := do
  let s ← load (w.stakeAccounts.lookup (owner, role)) (.anchor .accountNotInitialized)
  let t ← load s.firstStakedAt (.anchor .accountDidNotDeserialize)
  return (s, t)

section Loading
variable {w : World}

@[simp] theorem loadFeeConfig_ok (c : FeeConfig) :
    loadFeeConfig w = .ok c ↔ w.feeConfig = some c := load_ok _ _ _

@[simp] theorem loadTokenAccount_ok (k : Pubkey) (a : TokenAccount Pubkey) :
    loadTokenAccount w k = .ok a ↔ w.tokens.accounts.lookup k = some a := load_ok _ _ _

@[simp] theorem loadLiquidityVault_ok (merchant mint : Pubkey) (v : LiquidityVault) :
    loadLiquidityVault w merchant mint = .ok v ↔
      w.liquidityVaults.lookup (merchant, mint) = some v := load_ok _ _ _

@[simp] theorem loadTradeEscrow_ok (reservationId : ℕ) (e : TradeEscrowVault) :
    loadTradeEscrow w reservationId = .ok e ↔
      w.tradeEscrows.lookup reservationId = some e ∧ e.reservationId = reservationId := by
  simp only [loadTradeEscrow, bind_ok, load_ok, require_ok, pure_ok, exists_const]
  constructor
  · rintro ⟨_, h, hid, rfl⟩
    exact ⟨h, hid⟩
  · rintro ⟨h, hid⟩
    exact ⟨e, h, hid, rfl⟩

@[simp] theorem loadDisputeCase_ok (reservationId : ℕ) (c : DisputeCase) :
    loadDisputeCase w reservationId = .ok c ↔
      w.disputeCases.lookup reservationId = some c ∧ c.reservationId = reservationId := by
  simp only [loadDisputeCase, bind_ok, load_ok, require_ok, pure_ok, exists_const]
  constructor
  · rintro ⟨_, h, hid, rfl⟩
    exact ⟨h, hid⟩
  · rintro ⟨h, hid⟩
    exact ⟨c, h, hid, rfl⟩

@[simp] theorem loadStakingConfig_ok (c : StakingConfig) (secs : Role → ℤ) :
    loadStakingConfig w = .ok (c, secs) ↔
      w.stakingConfig = some c ∧ c.unbondingPeriods = .byRole secs := by
  simp only [loadStakingConfig, bind_ok, load_ok]
  constructor
  · rintro ⟨c', hc, h⟩
    cases hp : c'.unbondingPeriods with
    | single => simp [hp] at h
    | byRole =>
      simp only [hp, pure_ok, Prod.mk.injEq] at h
      obtain ⟨rfl, rfl⟩ := h
      exact ⟨hc, hp⟩
  · rintro ⟨hc, hp⟩
    exact ⟨c, hc, by simp [hp]⟩

@[simp] theorem loadStakeAccount_ok (owner : Pubkey) (role : Role) (s : StakeAccount) (t : ℤ) :
    loadStakeAccount w owner role = .ok (s, t) ↔
      w.stakeAccounts.lookup (owner, role) = some s ∧ s.firstStakedAt = some t := by
  simp only [loadStakeAccount, bind_ok, load_ok, pure_ok, Prod.mk.injEq]
  constructor
  · rintro ⟨_, hs, _, ht, rfl, rfl⟩
    exact ⟨hs, ht⟩
  · rintro ⟨hs, ht⟩
    exact ⟨s, hs, t, ht, rfl, rfl⟩

end Loading

/-- A class of failures that holds no error code of a program, and of the token
failures at most the ones for lack of funds. -/
structure Unchecked (bad : Failure → Prop) : Prop where
  anchor : ∀ e, ¬ bad (.anchor e)
  escrow : ∀ e, ¬ bad (.escrow e)
  staking : ∀ e, ¬ bad (.staking e)
  token : ∀ e, bad (.token e) → ∃ k, e = .insufficientFunds k

def shortOf (k : Pubkey) : Failure := .token (.insufficientFunds k)

theorem unchecked_shortOf (k : Pubkey) : Unchecked (· = shortOf k) where
  anchor _ h := by cases h
  escrow _ h := by cases h
  staking _ h := by cases h
  token _ h := ⟨k, Failure.token.inj h⟩

section Avoiding
variable {bad : Failure → Prop} {w : World} {α : Type}

/-- Loading an account fails with an error of the framework only. -/
theorem avoids_loads (ha : ∀ e, ¬ bad (.anchor e)) :
    Avoids bad (loadFeeConfig w) ∧ Avoids bad (loadStakingConfig w) ∧
      (∀ k, Avoids bad (loadTokenAccount w k)) ∧
      (∀ merchant mint, Avoids bad (loadLiquidityVault w merchant mint)) ∧
      (∀ id, Avoids bad (loadTradeEscrow w id)) ∧ (∀ id, Avoids bad (loadDisputeCase w id)) ∧
      ∀ owner role, Avoids bad (loadStakeAccount w owner role) := by
  have hload {β : Type} (slot : Option β) (e : AnchorError) : Avoids bad (load slot (.anchor e)) :=
    (avoids_load _ _).mpr fun h => absurd h (ha e)
  refine ⟨hload _ _, ?_, fun _ => hload _ _, fun _ _ => hload _ _, fun id => ?_, fun id => ?_,
    fun owner role => ?_⟩
  · simp only [loadStakingConfig, avoids_bind, hload, true_and]
    intro c _
    split
    · exact avoids_pure _
    · exact (avoids_error _).mpr (ha _)
  · simp only [loadTradeEscrow, avoids_bind, hload, avoids_require, avoids_pure, ha, false_imp_iff,
      implies_true, and_self]
  · simp only [loadDisputeCase, avoids_bind, hload, avoids_require, avoids_pure, ha, false_imp_iff,
      implies_true, and_self]
  · simp only [loadStakeAccount, avoids_bind, hload, avoids_pure, implies_true, and_self]

theorem avoids_invoke (ht : ∀ e, ¬ bad (.token e)) (x : Except (TransferError Pubkey) α) :
    Avoids bad (invoke x) := by
  intro e he
  obtain ⟨e', -, rfl⟩ := (invoke_error _ _).mp he
  exact ht e'

variable (hbad : Unchecked bad)
include hbad

theorem Unchecked.avoids_raiseEscrow (x : Except EscrowError α) : Avoids bad (raiseEscrow x) := by
  intro e he
  obtain ⟨e', -, rfl⟩ := (raiseEscrow_error _ _).mp he
  exact hbad.escrow e'

/-- A transfer whose source covers it, as far as its shortage matters. -/
theorem Unchecked.avoids_transfer {L : Ledger Pubkey} {src mint dst authority : Pubkey} {n : ℕ}
    (hn : bad (.token (.insufficientFunds src)) → n ≤ L.balance src) :
    Avoids bad (invoke (L.transfer src mint dst authority n)) := by
  intro e he hb
  obtain ⟨e', he', rfl⟩ := (invoke_error _ _).mp he
  obtain ⟨k, rfl⟩ := hbad.token e' hb
  obtain ⟨rfl, hlt⟩ := Ledger.transfer_insufficient he'
  exact hlt.not_ge (hn hb)

theorem Unchecked.avoids_payEach {L : Ledger Pubkey} {src mint authority : Pubkey}
    {shares : List (Pubkey × ℕ)}
    (hsum : bad (.token (.insufficientFunds src)) → (shares.map Prod.snd).sum ≤ L.balance src) :
    Avoids bad (invoke (L.payEach src mint authority shares)) := by
  intro e he hb
  obtain ⟨e', he', rfl⟩ := (invoke_error _ _).mp he
  obtain ⟨k, rfl⟩ := hbad.token e' hb
  obtain ⟨rfl, hlt⟩ := Ledger.payEach_insufficient he'
  exact hlt.not_ge (hsum hb)

end Avoiding

end OpenFiat.ChainWorld
