import OpenFiat.LedgerCustody

/-!
# What a step does to a stake account

Eight instructions write an existing stake account. `StakeStep` lists what each of
them can have done to its balances and its two times, with the tokens that moved; three
of them only touch fields that no balance depends on. `step_stakes` shows that every
step touches at most the one account that its arguments name, and only as listed.
-/
namespace OpenFiat.StakingSteps
open TokenLedger ProgramAddress StakingAccounts
open ChainWorld StakingInstructions ChainSteps LedgerCustody

def stakeOf : Instruction → Option (Pubkey × Role)
  | .initializeStakeAccount owner role | .stake owner role _ _ | .requestUnstake owner role _
  | .withdrawUnstaked owner role _ | .claimRewards owner role _ => some (.wallet owner, role)
  | .slash _ owner role | .distributeReward _ owner role _ | .migrateStakeAccount owner role =>
    some (owner, role)
  | .recoverStakeShortfall owner => some (owner, .merchant)
  | _ => none

/-- The one instruction that brings tokens to the vault as stake. -/
def takesStake : Instruction → Bool
  | .stake .. => true
  | _ => false

def newStakeAccount (owner : Pubkey) (role : Role) : StakeAccount where
  owner := owner
  role := role
  amount := 0
  unbondingAmount := 0
  unbondingReleaseAt := 0
  slashedTotal := 0
  pendingRewards := 0
  firstStakedAt := some 0

/-- What the step `ix` from `w` to `w'` did to the stake `s` stored under `key`. -/
inductive StakeStep (w : World) (ix : Instruction) (w' : World) (key : Pubkey × Role)
    (s : StakeAccount) : StakeAccount → Prop
  | staked {owner : ℕ} {role : Role} {source : Pubkey} {n : ℕ} :
      ix = .stake owner role source n → s.amount + n < 2 ^ 64 → source ≠ .stakeVault →
      Ledger.Moved [⟨source, .stakeVault, n⟩] w.tokens w'.tokens →
      StakeStep w ix w' key s
        { s with
          amount := s.amount + n
          firstStakedAt :=
            if s.amount = 0 ∧ 0 < s.amount + n then some w.clock else s.firstStakedAt }
  | unbonded {owner : ℕ} {role : Role} {n : ℕ} {c : StakingConfig} {secs : Role → ℤ} :
      ix = .requestUnstake owner role n → key = (.wallet owner, role) →
      w.stakingConfig = some c → c.unbondingPeriods = .byRole secs → n ≤ s.amount →
      w'.tokens = w.tokens →
      StakeStep w ix w' key s
        { s with
          amount := s.amount - n, firstStakedAt := ageAfter (s.amount - n) s
          unbondingAmount := s.unbondingAmount + n
          unbondingReleaseAt := w.clock + secs role }
  | withdrawn {owner : ℕ} {role : Role} {target : Pubkey} :
      ix = .withdrawUnstaked owner role target → s.unbondingReleaseAt ≤ w.clock →
      Ledger.Moved [⟨.stakeVault, target, s.unbondingAmount⟩] w.tokens w'.tokens →
      StakeStep w ix w' key s { s with unbondingAmount := 0 }
  | slashed {authority : ℕ} {owner : Pubkey} {role : Role} {c : StakingConfig} :
      ix = .slash authority owner role →
      Ledger.Moved (Ledger.payments .stakeVault [(c.slashDestination, slashAmount c s.amount)])
        w.tokens w'.tokens →
      StakeStep w ix w' key s
        { s with
          amount := s.amount - slashAmount c s.amount
          slashedTotal := s.slashedTotal + slashAmount c s.amount
          firstStakedAt := ageAfter (s.amount - slashAmount c s.amount) s }
  | recovered {owner target : Pubkey} {due : ℕ} : ix = .recoverStakeShortfall owner →
      Ledger.Moved [⟨.stakeVault, target, fromUnbonding due s + fromActive due s⟩] w.tokens
        w'.tokens →
      StakeStep w ix w' key s
        { s with
          amount := s.amount - fromActive due s
          unbondingAmount := s.unbondingAmount - fromUnbonding due s
          firstStakedAt := ageAfter (s.amount - fromActive due s) s }
  | kept {pending : ℕ} {age : Option ℤ} : takesStake ix = false →
      (age = s.firstStakedAt ∨
        s.firstStakedAt = none ∧ age = some (if 0 < s.amount then w.clock else 0)) →
      Ledger.Kept (· = .stakeVault) w.tokens w'.tokens →
      StakeStep w ix w' key s { s with pendingRewards := pending, firstStakedAt := age }

inductive StakesChange (w : World) (ix : Instruction) (w' : World) : Prop
  | outside : stakeOf ix = none → w'.stakeAccounts = w.stakeAccounts →
      Ledger.Kept (· = .stakeVault) w.tokens w'.tokens → StakesChange w ix w'
  | opened {owner : ℕ} {role : Role} : ix = .initializeStakeAccount owner role →
      w.stakeAccounts.lookup (.wallet owner, role) = none →
      w'.stakeAccounts = w.stakeAccounts.insert (.wallet owner, role)
        (newStakeAccount (.wallet owner) role) → w'.tokens = w.tokens → StakesChange w ix w'
  | changed {key : Pubkey × Role} {s s' : StakeAccount} : stakeOf ix = some key →
      w.stakeAccounts.lookup key = some s → StakeStep w ix w' key s s' →
      w'.stakeAccounts = w.stakeAccounts.insert key s' → StakesChange w ix w'

variable {P : Platform} {w w' : World} {ix : Instruction}

theorem step_stakes (hc : Custodial w.tokens) (h : step P w ix = .ok w') :
    StakesChange w ix w' := by
  by_cases hix : (writes ix).contains .stakes = false
  · have hpurses : (purses ix).contains .stakes = false := by
      cases ix <;> first | rfl | cases hix
    refine .outside ?_ (step_same h .stakes hix)
      (step_kept hc h fun k hk => ⟨.stakes, hk ▸ rfl, hpurses⟩)
    cases ix <;> first | rfl | cases hix
  obtain ⟨-, h⟩ := step_ok.mp h
  cases ix with
  | initializeStakeAccount =>
    obtain ⟨hnone, rfl⟩ := initializeStakeAccount_ok h
    exact .opened rfl hnone rfl rfl
  | stake =>
    obtain ⟨c, s, L, age, -, hs, hsource, hL, hn, rfl, rfl⟩ := stake_ok h
    exact .changed rfl hs (.staked rfl hn (ne_of_wallet hc hsource rfl) hL) rfl
  | requestUnstake =>
    obtain ⟨s, r, hs, hn, -, ⟨c, secs, hconfig, hsecs, -, rfl⟩, rfl⟩ := requestUnstake_ok h
    exact .changed rfl hs (.unbonded rfl rfl hconfig hsecs hn rfl) rfl
  | withdrawUnstaked =>
    obtain ⟨c, s, L, -, hs, -, -, ⟨-, hdue⟩, -, hL, rfl⟩ := withdrawUnstaked_ok h
    exact .changed rfl hs (.withdrawn rfl hdue hL) rfl
  | slash =>
    obtain ⟨c, s, L, -, -, hs, hL, -, rfl⟩ := slash_ok h
    exact .changed rfl hs (.slashed rfl hL) rfl
  | recoverStakeShortfall =>
    obtain ⟨c, s, owed, due, L, -, hs, -, -, -, -, -, hL, rfl⟩ := recoverStakeShortfall_ok h
    exact .changed rfl hs (.recovered rfl hL) rfl
  | distributeReward =>
    obtain ⟨s, hs, rfl⟩ := distributeReward_ok h
    exact .changed rfl hs (.kept rfl (.inl rfl) (.refl _)) rfl
  | claimRewards =>
    obtain ⟨s, L, hs, hL, rfl⟩ := claimRewards_ok h
    exact .changed rfl hs (.kept rfl (.inl rfl) (kept_single hL Pubkey.noConfusion)) rfl
  | migrateStakeAccount =>
    obtain ⟨s, age, hs, ⟨hnone, hage⟩, rfl⟩ := migrateStakeAccount_ok h
    exact .changed rfl hs (.kept rfl (.inr ⟨hnone, congrArg some hage⟩) (.refl _)) rfl
  | _ => exact absurd rfl hix

variable {key : Pubkey × Role}

theorem StakesChange.lookup_of_ne (h : StakesChange w ix w') (hkey : stakeOf ix ≠ some key) :
    w'.stakeAccounts.lookup key = w.stakeAccounts.lookup key := by
  cases h with
  | outside _ hstakes => rw [hstakes]
  | opened hix _ hstakes =>
    subst hix
    have hne : key ≠ _ := fun he => hkey (he ▸ rfl)
    rw [hstakes, Finmap.lookup_insert_of_ne _ hne]
  | changed hix _ _ hstakes =>
    have hne : key ≠ _ := fun he => hkey (he ▸ hix)
    rw [hstakes, Finmap.lookup_insert_of_ne _ hne]

/-- Stake accounts are never removed, and each is kept or changed by one listed step. -/
theorem StakesChange.of_lookup (h : StakesChange w ix w') {s : StakeAccount}
    (hs : w.stakeAccounts.lookup key = some s) :
    ∃ s', w'.stakeAccounts.lookup key = some s' ∧ (s' = s ∨ StakeStep w ix w' key s s') := by
  by_cases hkey : stakeOf ix = some key
  · cases h with
    | outside hix =>
      rw [hix] at hkey
      cases hkey
    | opened hix hnone =>
      rw [hix] at hkey
      cases hkey
      rw [hs] at hnone
      cases hnone
    | changed hix hs₁ hstep hstakes =>
      rw [hix] at hkey
      cases hkey
      rw [hs] at hs₁
      cases hs₁
      refine ⟨_, ?_, .inr hstep⟩
      rw [hstakes, Finmap.lookup_insert]
  · exact ⟨s, (h.lookup_of_ne hkey).trans hs, .inl rfl⟩

/-- An account is new and empty, or it was there before. -/
theorem StakesChange.origin (h : StakesChange w ix w') {s' : StakeAccount}
    (hs' : w'.stakeAccounts.lookup key = some s') :
    s' = newStakeAccount key.1 key.2 ∨
      ∃ s, w.stakeAccounts.lookup key = some s ∧ (s' = s ∨ StakeStep w ix w' key s s') := by
  cases hs : w.stakeAccounts.lookup key with
  | some s =>
    obtain ⟨s₁, hs₁, hstep⟩ := h.of_lookup hs
    obtain rfl := Option.mem_unique hs' hs₁
    exact .inr ⟨s, rfl, hstep⟩
  | none =>
    by_cases hkey : stakeOf ix = some key
    · cases h with
      | outside hix => cases hix.symm.trans hkey
      | opened hix _ hstakes =>
        subst hix
        cases hkey
        rw [hstakes, Finmap.lookup_insert] at hs'
        exact .inl (Option.some.inj hs').symm
      | changed hix hs₁ =>
        cases hix.symm.trans hkey
        cases hs.symm.trans hs₁
    · cases (h.lookup_of_ne hkey).symm.trans hs' ▸ hs

end OpenFiat.StakingSteps
