import OpenFiat.GovernanceInstructions
import OpenFiat.TransactionRuns

/-!
# Transactions of the governance program

An event is an instruction with the accounts and arguments that its caller chooses, or
something outside the program: time passes, token accounts are made and spent from, the
staking program rewrites its accounts. `Change` lists what one event can do to the
proposals, their actions and votes, the ban list and the deposit vault. From it follow
what a proposal keeps for ever (`Evolves`) and how its counters relate to the vote records
(`Sound`).
-/
namespace OpenFiat.GovernanceSteps
open GuardedResult FiniteTable TokenLedger ProgramAddress LedgerMoves TransactionRuns
open GovernanceAccounts GovernanceInstructions FiniteTable.Table
open StakingAccounts (StakeAccount StakingConfig)

inductive Instruction where
  | initializeGovernanceConfig (admin : ℕ) (mint : Address) (p : InitializeGovernanceConfigParams)
  | initializeEmergencyAuthority
  | updateGovernanceConfig (admin : ℕ) (mint forfeitDestination : Address)
      (p : UpdateGovernanceConfigParams)
  | createProposal (proposer : ℕ) (mint src : Address) (id : ℕ) (category : ProposalCategory)
      (votingPeriodSecs : ℤ) (action : GovernanceAction)
  | linkOffchainProposal (proposer id : ℕ) (hash : Digest)
  | castVote (voter id : ℕ) (inFavor : Bool) (role : Role)
  | tallyAndFinalize (id : ℕ)
  | refundOrForfeitDeposit (id : ℕ) (mint proposerTokenAccount forfeitDestination : Address)
  | updateConfigParameter (id : ℕ)
  | authorizeTreasurySpend (id : ℕ)
  | listWallet (id : ℕ) (wallet : Address)
  | delistWallet (id : ℕ) (wallet : Address)

inductive Event where
  | invoke (ix : Instruction)
  | advanceClock (now : ℤ)
  | outside (move : Move Address)
  | staking (stakeAccounts : Table (Address × Role) StakeAccount) (config : Option StakingConfig)

def UpdateGovernanceConfigParams.decode (p : UpdateGovernanceConfigParams) : Prop :=
  p.totalOpenSupply < 2 ^ 64 ∧ p.quorumBps < 2 ^ 16 ∧ p.thresholdSimpleBps < 2 ^ 16 ∧
    p.thresholdTreasuryBps < 2 ^ 16 ∧ p.thresholdUpgradeBps < 2 ^ 16 ∧
    p.quorumUpgradeBps < 2 ^ 16 ∧ p.depositAmount < 2 ^ 64 ∧ InI64 p.voteLockSecs

instance (p : UpdateGovernanceConfigParams) :
    Decidable (UpdateGovernanceConfigParams.decode p) := inferInstanceAs (Decidable (_ ∧ _))

/-- Whether the arguments fit the wire types of the source. -/
def Instruction.decodes : Instruction → Bool
  | .initializeGovernanceConfig _ _ p =>
    decide (UpdateGovernanceConfigParams.decode p.toUpdateGovernanceConfigParams)
  | .updateGovernanceConfig _ _ _ p => decide (UpdateGovernanceConfigParams.decode p)
  | .createProposal _ _ _ id _ secs _ => decide (id < 2 ^ 64 ∧ InI64 secs)
  | _ => true

def dispatch (w : GovernanceWorld) : Instruction → Except GovernanceFailure GovernanceWorld
  | .initializeGovernanceConfig admin mint p => initializeGovernanceConfig w (.wallet admin) mint p
  | .initializeEmergencyAuthority => initializeEmergencyAuthority w
  | .updateGovernanceConfig admin mint forfeitDestination p =>
    updateGovernanceConfig w (.wallet admin) mint forfeitDestination p
  | .createProposal proposer mint src id category secs action =>
    createProposal w (.wallet proposer) mint src id category secs action
  | .linkOffchainProposal proposer id hash => linkOffchainProposal w (.wallet proposer) id hash
  | .castVote voter id inFavor role => castVote w (.wallet voter) id inFavor role
  | .tallyAndFinalize id => tallyAndFinalize w id
  | .refundOrForfeitDeposit id mint proposerTokenAccount forfeitDestination =>
    refundOrForfeitDeposit w id mint proposerTokenAccount forfeitDestination
  | .updateConfigParameter id => updateConfigParameter w id
  | .authorizeTreasurySpend id => authorizeTreasurySpend w id
  | .listWallet id wallet => listWallet w id wallet
  | .delistWallet id wallet => delistWallet w id wallet

def step (w : GovernanceWorld) : Event → Except GovernanceFailure GovernanceWorld
  | .invoke ix => do
    require (ix.decodes = true) (.anchor .instructionDidNotDeserialize)
    dispatch w ix
  | .advanceClock now => .ok { w with clock := now }
  | .outside move => do
    let tokens ← invoke (act reserved w.tokens move)
    return { w with tokens }
  | .staking stakeAccounts stakingConfig => .ok { w with stakeAccounts, stakingConfig }

/-- The program before its configuration. -/
structure Deployed (w : GovernanceWorld) : Prop where
  config : w.config = none
  proposals : w.proposals = ∅
  actions : w.actions = ∅
  votes : w.votes = ∅
  bans : w.bans = ∅
  tokens : ∀ k, reserved.address k = true → w.tokens.header k = none
  history : w.tokens.history = []

def executes : Event → Option ℕ
  | .invoke (.listWallet id _) | .invoke (.delistWallet id _) => some id
  | .invoke (.updateConfigParameter id) | .invoke (.authorizeTreasurySpend id) => some id
  | _ => none

def settles : Event → Option ℕ
  | .invoke (.refundOrForfeitDeposit id _ _ _) => some id
  | _ => none

def lists : Event → Option (ℕ × Address)
  | .invoke (.listWallet id wallet) => some (id, wallet)
  | _ => none

def delists : Event → Option (ℕ × Address)
  | .invoke (.delistWallet id wallet) => some (id, wallet)
  | _ => none

/-- An event that neither executes nor settles a proposal. -/
def Plain (e : Event) : Prop :=
  executes e = none ∧ settles e = none ∧ lists e = none ∧ delists e = none

/-- What an execution does to the ban list. -/
inductive Execution (w : GovernanceWorld) (e : Event) (w' : GovernanceWorld) (id : ℕ)
    (p : Proposal) : Prop
  | recorded : lists e = none → delists e = none → p.category ≠ .standards → p.executed = false →
      w'.bans = w.bans → Execution w e w' id p
  | listed {c : GovernanceConfig} {wallet : Address} {r : BanRecord} :
      e = .invoke (.listWallet id wallet) → w.config = some c → p.category = .standards →
      Executable p c w.clock → w.bans.lookup wallet = none → r.wallet = wallet →
      r.authorizingProposal = id →
      w.actions.lookup id = some (.listWallet wallet r.reason r.evidenceHash) →
      w'.bans = w.bans.insert wallet r → Execution w e w' id p
  | delisted {c : GovernanceConfig} {wallet : Address} {r : BanRecord} :
      e = .invoke (.delistWallet id wallet) → w.config = some c → p.category = .standards →
      Executable p c w.clock → w.bans.lookup wallet = some r →
      w.actions.lookup id = some (.delistWallet wallet) → w'.bans = w.bans.erase wallet →
      Execution w e w' id p

/-- What an event makes of a proposal that it finds. -/
inductive Rewrite (w : GovernanceWorld) (e : Event) (w' : GovernanceWorld) (id : ℕ)
    (p : Proposal) : Proposal → Prop
  | linked {proposer : ℕ} {hash : Digest} :
      e = .invoke (.linkOffchainProposal proposer id hash) → p.proposer = .wallet proposer →
      p.state = .voting → hash ≠ zeroDigest → p.offchainIdHash = zeroDigest →
      w'.votes = w.votes → w'.bans = w.bans → w'.tokens = w.tokens →
      Rewrite w e w' id p { p with offchainIdHash := hash }
  | voted {voter : Address} {r : VoteRecord} : Plain e → p.state = .voting →
      w.votes.lookup (id, voter) = none → w'.votes = w.votes.insert (id, voter) r →
      w'.bans = w.bans → w'.tokens = w.tokens → Rewrite w e w' id p (withVote p r)
  | tallied {accepted : Bool} : e = .invoke (.tallyAndFinalize id) → p.state = .voting →
      p.votingEndsAt ≤ w.clock → (accepted = true ↔ Passes p) → w'.votes = w.votes →
      w'.bans = w.bans → w'.tokens = w.tokens → Rewrite w e w' id p
        { p with
          quorumMet := decide (p.quorumSnapshot ≤ p.votesFor + p.votesAgainst)
          state := if accepted = true then .accepted else .rejected }
  | settled {c : GovernanceConfig} {mint account forfeit : Address} :
      e = .invoke (.refundOrForfeitDeposit id mint account forfeit) → w.config = some c →
      p.state ≠ .voting → p.depositSettled = false →
      w.tokens.header account = some (c.mint, p.proposer) →
      w.tokens.transfer .depositVault c.mint
        (if p.quorumMet = true then account else c.forfeitDestination) .governanceConfig
        p.stakeDeposit = .ok w'.tokens →
      w'.votes = w.votes → w'.bans = w.bans → Rewrite w e w' id p { p with depositSettled := true }
  | executed : executes e = some id → settles e = none → w'.votes = w.votes →
      w'.tokens = w.tokens → Execution w e w' id p → Rewrite w e w' id p { p with executed := true }

/-- The deposit vault is opened with a configuration, which keeps its mint. -/
def ConfigStep (w w' : GovernanceWorld) : Prop :=
  ∀ c', w'.config = some c' →
    w'.tokens.header .depositVault = some (c'.mint, .governanceConfig) ∨
      ∃ c, w.config = some c ∧ c'.mint = c.mint

inductive Change (w : GovernanceWorld) (e : Event) (w' : GovernanceWorld) : Prop
  | outside : Plain e → w'.proposals = w.proposals → w'.actions = w.actions →
      w'.votes = w.votes → w'.bans = w.bans → ConfigStep w w' →
      Spends reserved [] w.tokens w'.tokens → Change w e w'
  | created {id : ℕ} {p : Proposal} {c : GovernanceConfig} {a : GovernanceAction} : Plain e →
      id < 2 ^ 64 → w.proposals.lookup id = none → w.actions.lookup id = none →
      NewProposal id p c a → w'.proposals = w.proposals.insert id p →
      w'.actions = w.actions.insert id a → w'.votes = w.votes → w'.bans = w.bans →
      w'.config = w.config → Spends reserved [] w.tokens w'.tokens →
      (Held reserved w.tokens .depositVault → w.tokens.balance .depositVault + p.stakeDeposit ≤
        w'.tokens.balance .depositVault) → Change w e w'
  | rewritten {id : ℕ} {p p' : Proposal} : w.proposals.lookup id = some p →
      w'.proposals = w.proposals.insert id p' → w'.actions = w.actions → w'.config = w.config →
      Rewrite w e w' id p p' → Change w e w'

section
variable {w w' : GovernanceWorld} {e : Event}

theorem balance_of_deposit {src mint : Address} {proposer n : ℕ} {L : Ledger Address}
    (hL : w.tokens.transfer src mint .depositVault (.wallet proposer) n = .ok L)
    (hheld : Held reserved w.tokens .depositVault) :
    w.tokens.balance .depositVault + n ≤ L.balance .depositVault := by
  have hne := outsider_source_ne (R := reserved) (Ledger.transfer_ok.mp hL).2.1 rfl hheld
  have hbalance := (Ledger.moved_transfer hL).balance .depositVault
  simp only [Ledger.outflow_cons, Ledger.outflow_nil, Ledger.inflow_cons, Ledger.inflow_nil,
    if_neg hne, if_true] at hbalance
  omega

theorem configStep_of_eq (h : w'.config = w.config) : ConfigStep w w' :=
  fun c hc => .inr ⟨c, h ▸ hc, rfl⟩

theorem instruction_change {ix : Instruction} (hdecodes : ix.decodes = true)
    (h : dispatch w ix = .ok w') : Change w (.invoke ix) w' := by
  cases ix with
  | initializeGovernanceConfig =>
    obtain ⟨L, c, authority, -, hL, hmint, rfl⟩ := initializeGovernanceConfig_ok h
    refine .outside ⟨rfl, rfl, rfl, rfl⟩ rfl rfl rfl rfl (fun c' hc' => .inl ?_)
      (spends_createAccount hL fun _ => ⟨rfl, rfl⟩)
    obtain rfl := Option.some.inj hc'
    rw [hmint]
    exact (Ledger.header_createAccount hL _).trans (if_pos rfl)
  | initializeEmergencyAuthority =>
    obtain ⟨authority, rfl⟩ := initializeEmergencyAuthority_ok h
    exact .outside ⟨rfl, rfl, rfl, rfl⟩ rfl rfl rfl rfl (configStep_of_eq rfl) (.refl _)
  | updateGovernanceConfig =>
    obtain ⟨c, c₁, hc, hmint, rfl⟩ := updateGovernanceConfig_ok h
    exact .outside ⟨rfl, rfl, rfl, rfl⟩ rfl rfl rfl rfl
      (fun c' hc' => .inr ⟨c, hc, Option.some.inj hc' ▸ hmint⟩) (.refl _)
  | createProposal =>
    obtain ⟨c, L, p, -, hproposal, haction, hL, hnew, rfl⟩ := createProposal_ok h
    exact .created ⟨rfl, rfl, rfl, rfl⟩ (of_decide_eq_true hdecodes).1 hproposal haction
      hnew rfl rfl
      rfl rfl rfl (spends_of_outsider hL rfl)
      fun hheld => hnew.stakeDeposit ▸ balance_of_deposit hL hheld
  | linkOffchainProposal =>
    obtain ⟨p, hp, hproposer, hstate, hhash, hzero, rfl⟩ := linkOffchainProposal_ok h
    exact .rewritten hp rfl rfl rfl (.linked rfl hproposer hstate hhash hzero rfl rfl rfl)
  | castVote =>
    obtain ⟨p, r, hp, hstate, hnone, rfl⟩ := castVote_ok h
    exact .rewritten hp rfl rfl rfl (.voted ⟨rfl, rfl, rfl, rfl⟩ hstate hnone rfl rfl rfl)
  | tallyAndFinalize =>
    obtain ⟨p, accepted, hp, hstate, hends, haccepted, rfl⟩ := tallyAndFinalize_ok h
    exact .rewritten hp rfl rfl rfl (.tallied rfl hstate hends haccepted rfl rfl rfl)
  | refundOrForfeitDeposit =>
    obtain ⟨c, p, L, hc, hp, hstate, hsettled, hheader, hL, rfl⟩ := refundOrForfeitDeposit_ok h
    exact .rewritten hp rfl rfl rfl (.settled rfl hc hstate hsettled hheader hL rfl rfl)
  | updateConfigParameter | authorizeTreasurySpend =>
    obtain ⟨p, hp, hcategory, hexecuted, rfl⟩ := recordExecution_ok h
    exact .rewritten hp rfl rfl rfl (.executed rfl rfl rfl rfl
      (.recorded rfl rfl (hcategory ▸ by decide) hexecuted rfl))
  | listWallet =>
    obtain ⟨c, p, r, hc, hp, hcategory, hexecutable, hnone, hwallet, hid, haction, rfl⟩ :=
      listWallet_ok h
    exact .rewritten hp rfl rfl rfl (.executed rfl rfl rfl rfl
      (.listed rfl hc hcategory hexecutable hnone hwallet hid haction rfl))
  | delistWallet =>
    obtain ⟨c, p, r, hc, hp, hcategory, hexecutable, hr, haction, rfl⟩ := delistWallet_ok h
    exact .rewritten hp rfl rfl rfl (.executed rfl rfl rfl rfl
      (.delisted rfl hc hcategory hexecutable hr haction rfl))

theorem step_change (h : step w e = .ok w') : Change w e w' := by
  cases e with
  | invoke =>
    simp only [step, bind_ok, require_ok, exists_const] at h
    exact instruction_change h.1 h.2
  | advanceClock | staking =>
    obtain rfl := Except.ok.inj h
    exact .outside ⟨rfl, rfl, rfl, rfl⟩ rfl rfl rfl rfl (configStep_of_eq rfl) (.refl _)
  | outside =>
    simp only [step, bind_ok, invoke_ok, pure_ok] at h
    obtain ⟨L, hL, rfl⟩ := h
    exact .outside ⟨rfl, rfl, rfl, rfl⟩ rfl rfl rfl rfl (configStep_of_eq rfl) (act_spends hL)

theorem Change.config (h : Change w e w') : ConfigStep w w' := by
  cases h with
  | outside _ _ _ _ _ hconfig => exact hconfig
  | created _ _ _ _ _ _ _ _ _ hconfig | rewritten _ _ _ hconfig => exact configStep_of_eq hconfig

/-- A later version of a proposal. -/
structure Evolves (p p' : Proposal) : Prop where
  category : p'.category = p.category
  proposer : p'.proposer = p.proposer
  stakeDeposit : p'.stakeDeposit = p.stakeDeposit
  quorumSnapshot : p'.quorumSnapshot = p.quorumSnapshot
  thresholdSnapshot : p'.thresholdSnapshot = p.thresholdSnapshot
  votingEndsAt : p'.votingEndsAt = p.votingEndsAt
  tallied : p.state ≠ .voting → p'.state = p.state ∧ p'.quorumMet = p.quorumMet ∧
    p'.votesFor = p.votesFor ∧ p'.votesAgainst = p.votesAgainst

theorem Evolves.refl (p : Proposal) : Evolves p p :=
  ⟨rfl, rfl, rfl, rfl, rfl, rfl, fun _ => ⟨rfl, rfl, rfl, rfl⟩⟩

variable {p p' : Proposal} {id : ℕ}

theorem Evolves.trans {p'' : Proposal} (h : Evolves p p') (h' : Evolves p' p'') :
    Evolves p p'' where
  category := h'.category.trans h.category
  proposer := h'.proposer.trans h.proposer
  stakeDeposit := h'.stakeDeposit.trans h.stakeDeposit
  quorumSnapshot := h'.quorumSnapshot.trans h.quorumSnapshot
  thresholdSnapshot := h'.thresholdSnapshot.trans h.thresholdSnapshot
  votingEndsAt := h'.votingEndsAt.trans h.votingEndsAt
  tallied := fun hp => by
    obtain ⟨hstate, hquorum, hfor, hagainst⟩ := h.tallied hp
    obtain ⟨hstate', hquorum', hfor', hagainst'⟩ := h'.tallied (hstate ▸ hp)
    exact ⟨hstate'.trans hstate, hquorum'.trans hquorum, hfor'.trans hfor,
      hagainst'.trans hagainst⟩

theorem Rewrite.evolves (h : Rewrite w e w' id p p') : Evolves p p' := by
  cases h with
  | voted _ hstate | tallied _ hstate =>
    exact ⟨rfl, rfl, rfl, rfl, rfl, rfl, fun h => absurd hstate h⟩
  | _ => exact ⟨rfl, rfl, rfl, rfl, rfl, rfl, fun _ => ⟨rfl, rfl, rfl, rfl⟩⟩

/-- Proposals and actions are never removed, and actions never change. -/
structure Extends (w w' : GovernanceWorld) : Prop where
  proposals : ∀ id p, w.proposals.lookup id = some p →
    ∃ p', w'.proposals.lookup id = some p' ∧ Evolves p p'
  actions : ∀ id a, w.actions.lookup id = some a → w'.actions.lookup id = some a

theorem Extends.refl (w : GovernanceWorld) : Extends w w :=
  ⟨fun _ p hp => ⟨p, hp, .refl p⟩, fun _ _ ha => ha⟩

theorem Extends.trans {w₁ w₂ w₃ : GovernanceWorld} (h : Extends w₁ w₂) (h' : Extends w₂ w₃) :
    Extends w₁ w₃ := by
  refine ⟨fun id p hp => ?_, fun id a ha => h'.actions id a (h.actions id a ha)⟩
  obtain ⟨p', hp', hevolves⟩ := h.proposals id p hp
  obtain ⟨p'', hp'', hevolves'⟩ := h'.proposals id p' hp'
  exact ⟨p'', hp'', hevolves.trans hevolves'⟩

theorem Change.extends (h : Change w e w') : Extends w w' := by
  cases h with
  | outside _ hproposals hactions =>
    exact ⟨fun id p hp => ⟨p, hproposals ▸ hp, .refl p⟩, fun id a ha => hactions ▸ ha⟩
  | @created id₁ p₁ c a₁ _ _ hproposal haction _ hproposals hactions =>
    refine ⟨fun id p hp => ⟨p, ?_, .refl p⟩, fun id a ha => ?_⟩
    · have hne : id ≠ id₁ := ne_of_lookup hp hproposal
      rw [hproposals, Finmap.lookup_insert_of_ne _ hne, hp]
    · have hne : id ≠ id₁ := ne_of_lookup ha haction
      rw [hactions, Finmap.lookup_insert_of_ne _ hne, ha]
  | @rewritten id₁ p₁ p₁' hp₁ hproposals hactions _ hrewrite =>
    refine ⟨fun id p hp => ?_, fun id a ha => hactions ▸ ha⟩
    rw [hproposals, lookup_insert_eq]
    split_ifs with hid
    · subst hid
      obtain rfl := Option.mem_unique hp₁ hp
      exact ⟨p₁', rfl, hrewrite.evolves⟩
    · exact ⟨p, hp, .refl p⟩

theorem run_extends (w : GovernanceWorld) (txs : List Event) : Extends w (run step w txs) :=
  run_relation (R := Extends) .refl (fun _ _ _ => .trans)
    (fun _ _ _ h => (step_change h).extends) w txs

/-- Later events keep the terms of a proposal, its outcome and its action. -/
theorem proposals_keep_terms (w : GovernanceWorld) (txs more : List Event) :
    Extends (run step w txs) (run step w (txs ++ more)) := by
  rw [run_append]
  exact run_extends _ more

/-- What held of a proposal and its action before some transition of a run evolves up to the
end of the run. -/
theorem extends_of_mem {w₀ : GovernanceWorld} {txs : List Event}
    {t : Transition GovernanceWorld Event} (ht : t ∈ transitions step w₀ txs) :
    Extends t.before (run step w₀ txs) := by
  obtain ⟨pre, post, rfl, hpre, -⟩ := exists_run_of_mem ht
  rw [run_append, hpre]
  exact run_extends t.before _

def Marked (flag : Proposal → Bool) (w : GovernanceWorld) (id : ℕ) : Prop :=
  ∃ p, w.proposals.lookup id = some p ∧ flag p = true

section
variable {flag : Proposal → Bool} {id : ℕ} {p p' : Proposal}

theorem not_marked_deployed (h : Deployed w) (id : ℕ) : ¬ Marked flag w id := by
  rintro ⟨p, hp, -⟩
  rw [h.proposals] at hp
  cases hp

theorem not_marked (hp : w.proposals.lookup id = some p) (hflag : flag p = false) :
    ¬ Marked flag w id := by
  rintro ⟨q, hq, hmarked⟩
  obtain rfl := Option.mem_unique hp hq
  rw [hflag] at hmarked
  cases hmarked

variable (h : w'.proposals = w.proposals.insert id p')
include h

theorem marked_insert (j : ℕ) :
    Marked flag w' j ↔ (j ≠ id ∧ Marked flag w j) ∨ (j = id ∧ flag p' = true) := by
  unfold Marked
  rw [h]
  by_cases hj : j = id
  · subst hj
    simp
  · simp [hj]

theorem marked_created (hnone : w.proposals.lookup id = none) (hflag : flag p' = false) (j : ℕ) :
    Marked flag w' j ↔ Marked flag w j := by
  rw [marked_insert h, hflag]
  simp only [Bool.false_eq_true, and_false, or_false, and_iff_right_iff_imp]
  rintro ⟨q, hq, -⟩ rfl
  rw [hnone] at hq
  cases hq

theorem marked_kept (hp : w.proposals.lookup id = some p) (hflag : flag p' = flag p) (j : ℕ) :
    Marked flag w' j ↔ Marked flag w j := by
  rw [marked_insert h, hflag]
  by_cases hj : j = id
  · subst hj
    simp [Marked, hp]
  · simp [hj]

theorem marked_set (hflag : flag p' = true) (j : ℕ) :
    Marked flag w' j ↔ Marked flag w j ∨ some id = some j := by
  rw [marked_insert h, hflag, Option.some.injEq]
  by_cases hj : j = id
  · simp [hj]
  · simp [hj, Ne.symm hj]

end

theorem not_eq_some {α : Type} {o : Option α} (h : o = none) (a : α) : ¬ o = some a := by
  rw [h]
  exact fun h => by cases h

/-- A flag stays, or is set for the first time by an event that names the proposal. -/
def FlagStep (sets : Option ℕ) (id : ℕ) (before after : Bool) : Prop :=
  sets = none ∧ after = before ∨ sets = some id ∧ before = false ∧ after = true

theorem Change.marked {flag : Proposal → Bool} {sets : Event → Option ℕ} (h : Change w e w')
    (hplain : Plain e → sets e = none)
    (hnew : ∀ {id p c a}, NewProposal id p c a → flag p = false)
    (hrewrite : ∀ {id p p'}, Rewrite w e w' id p p' → FlagStep (sets e) id (flag p) (flag p'))
    (id : ℕ) :
    (Marked flag w' id ↔ Marked flag w id ∨ sets e = some id) ∧
      (sets e = some id → ¬ Marked flag w id) := by
  have hother (hnone : sets e = none) (hmarked : Marked flag w' id ↔ Marked flag w id) :
      (Marked flag w' id ↔ Marked flag w id ∨ sets e = some id) ∧
        (sets e = some id → ¬ Marked flag w id) :=
    ⟨hmarked.trans (or_iff_left (not_eq_some hnone id)).symm,
      fun hsome => absurd hsome (not_eq_some hnone id)⟩
  cases h with
  | outside h hproposals => exact hother (hplain h) (by rw [Marked, Marked, hproposals])
  | created h _ hnone _ hfresh hproposals =>
    exact hother (hplain h) (marked_created hproposals hnone (hnew hfresh) id)
  | rewritten hp hproposals _ _ hstep =>
    obtain ⟨hnone, hkept⟩ | ⟨hsome, hunset, hset⟩ := hrewrite hstep
    · exact hother hnone (marked_kept hproposals hp hkept id)
    · rw [hsome]
      refine ⟨marked_set hproposals hset id, fun hid => ?_⟩
      obtain rfl := Option.some.inj hid
      exact not_marked hp hunset

theorem Execution.unexecuted (h : Execution w e w' id p) : p.executed = false := by
  cases h with
  | recorded _ _ _ hexecuted => exact hexecuted
  | listed _ _ _ hexecutable | delisted _ _ _ hexecutable => exact hexecutable.executed

theorem Change.executed (h : Change w e w') (id : ℕ) :
    (Marked (·.executed) w' id ↔ Marked (·.executed) w id ∨ executes e = some id) ∧
      (executes e = some id → ¬ Marked (·.executed) w id) := by
  refine h.marked (fun hplain => hplain.1) (fun hnew => hnew.executed) (fun hrewrite => ?_) id
  cases hrewrite with
  | linked he | tallied he | settled he => exact .inl ⟨he ▸ rfl, rfl⟩
  | voted hplain => exact .inl ⟨hplain.1, rfl⟩
  | executed hexecutes _ _ _ hexecution => exact .inr ⟨hexecutes, hexecution.unexecuted, rfl⟩

theorem Change.depositSettled (h : Change w e w') (id : ℕ) :
    (Marked (·.depositSettled) w' id ↔ Marked (·.depositSettled) w id ∨ settles e = some id) ∧
      (settles e = some id → ¬ Marked (·.depositSettled) w id) := by
  refine h.marked (fun hplain => hplain.2.1) (fun hnew => hnew.depositSettled)
    (fun hrewrite => ?_) id
  cases hrewrite with
  | linked he | tallied he => exact .inl ⟨he ▸ rfl, rfl⟩
  | voted hplain => exact .inl ⟨hplain.2.1, rfl⟩
  | settled he _ _ hsettled => exact .inr ⟨he ▸ rfl, hsettled, rfl⟩
  | executed _ hsettles => exact .inl ⟨hsettles, rfl⟩

def voteTotal (w : GovernanceWorld) (id : ℕ) (inFavor : Bool) : ℕ :=
  Table.total (fun key r => if key.1 = id ∧ r.inFavor = inFavor then r.weight else 0) w.votes

theorem voteTotal_congr (h : w'.votes = w.votes) (id : ℕ) (side : Bool) :
    voteTotal w' id side = voteTotal w id side := by
  rw [voteTotal, h]
  rfl

theorem voteTotal_insert {id₁ : ℕ} {voter : Address} {r : VoteRecord}
    (hnone : w.votes.lookup (id₁, voter) = none)
    (h : w'.votes = w.votes.insert (id₁, voter) r) (id : ℕ) (side : Bool) :
    voteTotal w' id side =
      voteTotal w id side + if id₁ = id ∧ r.inFavor = side then r.weight else 0 := by
  rw [voteTotal, h]
  exact total_insert_new _ _ hnone

/-- How the record of a proposal agrees with its votes and its action. -/
structure Sound (w : GovernanceWorld) (id : ℕ) (p : Proposal) : Prop where
  votesFor : p.votesFor = voteTotal w id true
  votesAgainst : p.votesAgainst = voteTotal w id false
  action : ∃ a, w.actions.lookup id = some a ∧ (a = .none ∨ p.category = .standards)
  drafted : p.state ≠ .draft
  quorum : p.state ≠ .voting →
    (p.quorumMet = true ↔ p.quorumSnapshot ≤ p.votesFor + p.votesAgainst)
  accepted : p.state = .accepted → Passes p

structure ProposalsSound (w : GovernanceWorld) : Prop where
  sound : ∀ id p, w.proposals.lookup id = some p → Sound w id p
  voted : ∀ id voter r, w.votes.lookup (id, voter) = some r → ∃ p, w.proposals.lookup id = some p

theorem proposalsSound_deployed (h : Deployed w) : ProposalsSound w := by
  exact ⟨forall_of_empty h.proposals, fun _ _ _ hr =>
    forall_of_empty (Q := fun _ _ => _) h.votes _ _ hr⟩

theorem Sound.congr (h : Sound w id p) (hvotes : w'.votes = w.votes)
    (hactions : w'.actions.lookup id = w.actions.lookup id) : Sound w' id p where
  votesFor := (voteTotal_congr hvotes id true) ▸ h.votesFor
  votesAgainst := (voteTotal_congr hvotes id false) ▸ h.votesAgainst
  action := by
    rw [hactions]
    exact h.action
  drafted := h.drafted
  quorum := h.quorum
  accepted := h.accepted

theorem voteTotal_eq_zero (h : ProposalsSound w) (hnone : w.proposals.lookup id = none)
    (side : Bool) : voteTotal w id side = 0 := by
  refine total_eq_zero fun key r hr => if_neg ?_
  rintro ⟨rfl, -⟩
  obtain ⟨p, hp⟩ := h.voted key.1 key.2 r hr
  rw [hnone] at hp
  cases hp

theorem Rewrite.votes (h : Rewrite w e w' id p p') :
    w'.votes = w.votes ∨ ∃ voter r, w'.votes = w.votes.insert (id, voter) r := by
  cases h with
  | linked _ _ _ _ _ hvotes | tallied _ _ _ _ hvotes | settled _ _ _ _ _ _ hvotes
  | executed _ _ hvotes => exact .inl hvotes
  | voted _ _ _ hvotes => exact .inr ⟨_, _, hvotes⟩

theorem step_voted (hw : ProposalsSound w) (h : Change w e w') (id : ℕ) (voter : Address)
    (r : VoteRecord) (hr : w'.votes.lookup (id, voter) = some r) :
    ∃ p, w'.proposals.lookup id = some p := by
  have hbefore (hr : w.votes.lookup (id, voter) = some r) :
      ∃ p, w'.proposals.lookup id = some p := by
    obtain ⟨p, hp⟩ := hw.voted id voter r hr
    exact (h.extends.proposals id p hp).imp fun _ h => h.1
  cases h with
  | outside _ _ _ hvotes | created _ _ _ _ _ _ _ hvotes => exact hbefore (hvotes ▸ hr)
  | rewritten hp hproposals _ _ hrewrite =>
    obtain hvotes | ⟨voter₁, r₁, hvotes⟩ := hrewrite.votes
    · exact hbefore (hvotes ▸ hr)
    · rw [hvotes, lookup_insert_eq] at hr
      split_ifs at hr with hkey
      · obtain ⟨rfl, -⟩ := Prod.mk.inj hkey
        exact ⟨_, by rw [hproposals, Finmap.lookup_insert]⟩
      · exact hbefore hr

theorem sound_voted (hw : ProposalsSound w) {voter : Address} {r : VoteRecord}
    (hp : w.proposals.lookup id = some p) (hstate : p.state = .voting)
    (hnone : w.votes.lookup (id, voter) = none)
    (hproposals : w'.proposals = w.proposals.insert id (withVote p r))
    (hactions : w'.actions = w.actions) (hvotes : w'.votes = w.votes.insert (id, voter) r) :
    ∀ j q, w'.proposals.lookup j = some q → Sound w' j q := by
  have htotal := voteTotal_insert hnone hvotes
  intro j q hq
  rw [hproposals] at hq
  by_cases hj : j = id
  · subst hj
    rw [Finmap.lookup_insert] at hq
    obtain rfl := Option.some.inj hq
    have hs := hw.sound j p hp
    refine ⟨?_, ?_, hactions ▸ hs.action, hs.drafted, fun h => absurd hstate h, fun h => ?_⟩
    · simp [withVote, htotal, hs.votesFor]
    · simp [withVote, htotal, hs.votesAgainst]
    · exact absurd (hstate.symm.trans h) (by decide)
  · rw [Finmap.lookup_insert_of_ne _ hj] at hq
    have hs := hw.sound j q hq
    have hside (side : Bool) : ¬ (id = j ∧ r.inFavor = side) := fun h => hj h.1.symm
    refine ⟨?_, ?_, hactions ▸ hs.action, hs.drafted, hs.quorum, hs.accepted⟩
    · rw [htotal, if_neg (hside true), add_zero, hs.votesFor]
    · rw [htotal, if_neg (hside false), add_zero, hs.votesAgainst]

theorem step_sound (hw : ProposalsSound w) (h : step w e = .ok w') : ProposalsSound w' := by
  refine ⟨?_, step_voted hw (step_change h)⟩
  -- an event that rewrites one proposal beside unchanged votes and actions
  have hrewrite {id : ℕ} {p' : Proposal} (hvotes : w'.votes = w.votes)
      (hactions : w'.actions = w.actions) (hproposals : w'.proposals = w.proposals.insert id p')
      (hp' : Sound w id p') : ∀ j q, w'.proposals.lookup j = some q → Sound w' j q := by
    rw [hproposals]
    refine forall_insert (fun j q hq => ?_) (hp'.congr hvotes (by rw [hactions]))
    exact (hw.sound j q hq).congr hvotes (by rw [hactions])
  cases step_change h with
  | outside _ hproposals hactions hvotes =>
    intro id p hp
    exact (hw.sound id p (hproposals ▸ hp)).congr hvotes (by rw [hactions])
  | @created id p c a _ _ hproposal haction hnew hproposals hactions hvotes =>
    rw [hproposals]
    refine forall_insert (fun j q hq => (hw.sound j q hq).congr hvotes ?_) ?_
    · rw [hactions, Finmap.lookup_insert_of_ne _ (ne_of_lookup hq hproposal)]
    · have hzero (side : Bool) : voteTotal w' id side = 0 := by
        rw [voteTotal_congr hvotes]
        exact voteTotal_eq_zero hw hproposal side
      exact
        { votesFor := hnew.votesFor.trans (hzero true).symm
          votesAgainst := hnew.votesAgainst.trans (hzero false).symm
          action := ⟨a, by rw [hactions, Finmap.lookup_insert], hnew.category⟩
          drafted := fun hstate => by
            rw [hnew.state] at hstate
            cases hstate
          quorum := fun hstate => absurd hnew.state hstate
          accepted := fun hstate => by
            rw [hnew.state] at hstate
            cases hstate }
  | @rewritten id p p' hp hproposals hactions _ hstep =>
    have hs := hw.sound id p hp
    cases hstep with
    | linked _ _ _ _ _ hvotes | settled _ _ _ _ _ _ hvotes | executed _ _ hvotes =>
      exact hrewrite hvotes hactions hproposals { hs with }
    | voted _ hstate hnone hvotes => exact sound_voted hw hp hstate hnone hproposals hactions hvotes
    | @tallied accepted _ _ _ haccepted hvotes =>
      refine hrewrite hvotes hactions hproposals
        ⟨hs.votesFor, hs.votesAgainst, hs.action, ?_, fun _ => decide_eq_true_iff, ?_⟩
      · dsimp only
        split_ifs
        · decide
        · decide
      · intro hstate'
        refine haccepted.mp ?_
        by_contra hrejected
        rw [if_neg hrejected] at hstate'
        cases hstate'

end

def emptyGovernance : GovernanceWorld where
  clock := 0
  tokens := ⟨∅, []⟩
  config := none
  emergencyAuthority := none
  proposals := ∅
  actions := ∅
  votes := ∅
  bans := ∅
  stakeAccounts := ∅
  stakingConfig := none

theorem deployed_emptyGovernance : Deployed emptyGovernance where
  config := rfl
  proposals := rfl
  actions := rfl
  votes := rfl
  bans := rfl
  tokens := fun _ _ => rfl
  history := rfl

def depositMint : Address := .wallet 1

/-- Wallet 20 has staked 600 and has 500 more to deposit. A supply of 1000 needs a quorum of
100, a proposal needs a deposit of 50, and the vote lock is a minute. -/
def constituted : List Event :=
  [.outside (.openAccount (.wallet 21) depositMint (.wallet 20)),
    .outside (.issue (.wallet 21) 500),
    .outside (.openAccount (.wallet 5) depositMint (.wallet 9)),
    .invoke (.initializeGovernanceConfig 9 depositMint
      ⟨⟨1000, 1000, 5000, 6000, 6600, 2000, 50, 60⟩, .wallet 5⟩),
    .staking
      ((∅ : Table (Address × Role) StakingAccounts.StakeAccount).insert (.wallet 20, .arbitrator)
        ⟨.wallet 20, .arbitrator, 600, 0, 0, 0, 0, some 1⟩)
      (some ⟨.wallet 9, .wallet 1, fun _ => 10, .byRole fun _ => 60, 100, .wallet 9, .wallet 9,
        .wallet 9, by decide⟩)]

/-- A proposal made at `now`, voted for by wallet 20, tallied and ready for execution. -/
def passed (now : ℤ) (id : ℕ) (action : GovernanceAction) : List Event :=
  [.advanceClock now,
    .invoke (.createProposal 20 depositMint (.wallet 21) id .standards 30 action),
    .invoke (.castVote 20 id true .arbitrator), .advanceClock (now + 30),
    .invoke (.tallyAndFinalize id), .advanceClock (now + 90)]

end OpenFiat.GovernanceSteps
