import OpenFiat.GovernanceSteps

/-!
# The authority over the ban list

A ban record exists from the execution of a listing to the execution of a delisting of the
same wallet. Every execution uses up a proposal of its own, whose votes were counted, and
waits for the vote lock. The books below compare the ban records with the executed
proposals; every other event leaves both sides alone.
-/
namespace OpenFiat.BanListAuthority
open FiniteTable TransactionRuns
open GovernanceAccounts GovernanceInstructions GovernanceSteps

def isListing (wallet : Address) : GovernanceAction → Bool
  | .listWallet target _ _ => target = wallet
  | _ => false

def isDelisting (wallet : Address) : GovernanceAction → Bool
  | .delistWallet target => target = wallet
  | _ => false

def executedCount (kind : GovernanceAction → Bool) (w : GovernanceWorld) : ℕ :=
  Table.total
    (fun id p => if p.executed = true ∧ (w.actions.lookup id).any kind = true then 1 else 0)
    w.proposals

def listings (w : GovernanceWorld) (wallet : Address) : ℕ := executedCount (isListing wallet) w

def delistings (w : GovernanceWorld) (wallet : Address) : ℕ := executedCount (isDelisting wallet) w

section
variable {w w' : GovernanceWorld} {e : Event} {kind : GovernanceAction → Bool} {id : ℕ}
  {p p' : Proposal}

theorem executedCount_created {a : GovernanceAction} (hnone : w.proposals.lookup id = none)
    (hproposals : w'.proposals = w.proposals.insert id p)
    (hactions : w'.actions = w.actions.insert id a) (hexecuted : p.executed = false) :
    executedCount kind w' = executedCount kind w := by
  have hnew : ¬ (p.executed = true ∧ (w'.actions.lookup id).any kind = true) := by
    rw [hexecuted]
    exact fun h => by cases h.1
  rw [executedCount, hproposals, Table.total_insert_new _ _ hnone, if_neg hnew]
  refine Table.total_congr fun j q hq => ?_
  have hne : j ≠ id := Table.ne_of_lookup hq hnone
  rw [hactions, Finmap.lookup_insert_of_ne _ hne]

theorem executedCount_kept (hp : w.proposals.lookup id = some p)
    (hproposals : w'.proposals = w.proposals.insert id p') (hactions : w'.actions = w.actions)
    (hexecuted : p'.executed = p.executed) : executedCount kind w' = executedCount kind w := by
  rw [executedCount, hproposals, hactions]
  have hinsert := Table.total_insert_old (fun (j : ℕ) (q : Proposal) =>
    if q.executed = true ∧ (w.actions.lookup j).any kind = true then 1 else 0) p' hp
  rw [hexecuted] at hinsert
  exact Nat.add_right_cancel hinsert

theorem executedCount_executed {a : GovernanceAction} (hp : w.proposals.lookup id = some p)
    (hproposals : w'.proposals = w.proposals.insert id { p with executed := true })
    (hactions : w'.actions = w.actions) (hexecuted : p.executed = false)
    (ha : w.actions.lookup id = some a) (kind : GovernanceAction → Bool) :
    executedCount kind w' = executedCount kind w + if kind a = true then 1 else 0 := by
  rw [executedCount, hproposals, hactions]
  have hinsert := Table.total_insert_old (fun (j : ℕ) (q : Proposal) =>
    if q.executed = true ∧ (w.actions.lookup j).any kind = true then 1 else 0)
    { p with executed := true } hp
  simp only [hexecuted, Bool.false_eq_true, false_and, if_false, add_zero, ha, Option.any_some,
    true_and] at hinsert
  exact hinsert

inductive BanChange (w : GovernanceWorld) (e : Event) (w' : GovernanceWorld) : Prop
  | kept : lists e = none → delists e = none → w'.bans = w.bans →
      (∀ kind, kind .none = false → executedCount kind w' = executedCount kind w) →
      BanChange w e w'
  | listed {id : ℕ} {wallet : Address} {r : BanRecord} : lists e = some (id, wallet) →
      delists e = none → w.bans.lookup wallet = none → w'.bans = w.bans.insert wallet r →
      r.wallet = wallet → r.authorizingProposal = id → executes e = some id →
      w.actions.lookup id = some (.listWallet wallet r.reason r.evidenceHash) →
      (∀ kind, executedCount kind w' = executedCount kind w +
        if kind (.listWallet wallet r.reason r.evidenceHash) = true then 1 else 0) →
      BanChange w e w'
  | delisted {id : ℕ} {wallet : Address} {r : BanRecord} : lists e = none →
      delists e = some (id, wallet) → w.bans.lookup wallet = some r →
      w'.bans = w.bans.erase wallet →
      (∀ kind, executedCount kind w' = executedCount kind w +
        if kind (.delistWallet wallet) = true then 1 else 0) → BanChange w e w'

theorem banChange (hw : ProposalsSound w) (h : Change w e w') : BanChange w e w' := by
  cases h with
  | outside hplain hproposals hactions _ hbans =>
    exact .kept hplain.2.2.1 hplain.2.2.2 hbans fun _ _ => by
      rw [executedCount, hproposals, hactions, executedCount]
  | created hplain _ hnone _ hnew hproposals hactions _ hbans =>
    exact .kept hplain.2.2.1 hplain.2.2.2 hbans fun _ _ =>
      executedCount_created hnone hproposals hactions hnew.executed
  | @rewritten id p _ hp hproposals hactions _ hrewrite =>
    cases hrewrite with
    | linked he _ _ _ _ _ hbans | tallied he _ _ _ _ hbans | settled he _ _ _ _ _ _ hbans =>
      exact .kept (he ▸ rfl) (he ▸ rfl) hbans fun _ _ =>
        executedCount_kept hp hproposals hactions rfl
    | voted hplain _ _ _ hbans =>
      exact .kept hplain.2.2.1 hplain.2.2.2 hbans fun _ _ =>
        executedCount_kept hp hproposals hactions rfl
    | executed hexecutes _ _ _ hexecution =>
      have hcount {a : GovernanceAction} (ha : w.actions.lookup id = some a) :=
        executedCount_executed hp hproposals hactions hexecution.unexecuted ha
      cases hexecution with
      | recorded hlists hdelists hcategory _ hbans =>
        -- a proposal outside the standards category has no ban-list action
        obtain ⟨a, ha, hnone⟩ := (hw.sound id p hp).action
        obtain rfl := hnone.resolve_right hcategory
        refine .kept hlists hdelists hbans fun kind hkind => ?_
        rw [hcount ha, hkind, if_neg Bool.false_ne_true, add_zero]
      | listed he _ _ _ hnone hwallet hid haction hbans =>
        exact .listed (he ▸ rfl) (he ▸ rfl) hnone hbans hwallet hid hexecutes haction
          (hcount haction)
      | delisted he _ _ _ hr haction hbans =>
        subst he
        exact .delisted rfl rfl hr hbans (hcount haction)

structure BanBooks (w : GovernanceWorld) : Prop where
  balance : ∀ wallet, listings w wallet =
    delistings w wallet + if walletIsBanned w wallet = true then 1 else 0
  records : ∀ wallet r, w.bans.lookup wallet = some r → r.wallet = wallet ∧
    w.actions.lookup r.authorizingProposal = some (.listWallet wallet r.reason r.evidenceHash) ∧
    Marked (·.executed) w r.authorizingProposal

theorem banBooks_deployed (h : Deployed w) : BanBooks w := by
  refine ⟨fun wallet => ?_, Table.forall_of_empty h.bans⟩
  rw [listings, delistings, executedCount, executedCount, h.proposals, walletIsBanned, h.bans]
  rfl

theorem BanChange.balance (h : BanChange w e w') (hw : BanBooks w) (wallet : Address) :
    listings w' wallet = delistings w' wallet +
      if walletIsBanned w' wallet = true then 1 else 0 := by
  have hbefore := hw.balance wallet
  unfold listings delistings walletIsBanned at hbefore ⊢
  cases h with
  | kept _ _ hbans hcount =>
    rw [hcount _ rfl, hcount _ rfl, hbans]
    exact hbefore
  | @listed id wallet₁ r _ _ hnone hbans _ _ _ _ hcount =>
    rw [hcount, hcount, hbans, Table.lookup_insert_eq]
    by_cases hwallet : wallet = wallet₁
    · subst hwallet
      simp only [hnone, isListing, isDelisting, decide_true, if_true, Option.isSome_none,
        Option.isSome_some, Bool.false_eq_true, if_false, add_zero] at hbefore ⊢
      rw [hbefore]
    · simp only [isListing, isDelisting, hwallet, Ne.symm hwallet, decide_false,
        Bool.false_eq_true, if_false, add_zero]
      exact hbefore
  | @delisted id wallet₁ r _ _ hr hbans hcount =>
    rw [hcount, hcount, hbans]
    by_cases hwallet : wallet = wallet₁
    · subst hwallet
      rw [Finmap.lookup_erase]
      simp only [hr, isListing, isDelisting, decide_true, if_true, Option.isSome_none,
        Option.isSome_some, Bool.false_eq_true, if_false, add_zero] at hbefore ⊢
      exact hbefore
    · rw [Finmap.lookup_erase_ne hwallet]
      simp only [isListing, isDelisting, Ne.symm hwallet, decide_false, Bool.false_eq_true,
        if_false, add_zero]
      exact hbefore

theorem BanChange.records (hextends : Extends w w')
    (hmarked : ∀ id, Marked (·.executed) w' id ↔ Marked (·.executed) w id ∨ executes e = some id)
    (h : BanChange w e w') (hw : BanBooks w) (wallet : Address) (r : BanRecord)
    (hr : w'.bans.lookup wallet = some r) : r.wallet = wallet ∧
      w'.actions.lookup r.authorizingProposal =
        some (.listWallet wallet r.reason r.evidenceHash) ∧
      Marked (·.executed) w' r.authorizingProposal := by
  have hold (hr : w.bans.lookup wallet = some r) : r.wallet = wallet ∧
      w'.actions.lookup r.authorizingProposal =
        some (.listWallet wallet r.reason r.evidenceHash) ∧
      Marked (·.executed) w' r.authorizingProposal := by
    obtain ⟨hwallet, haction, hexecuted⟩ := hw.records wallet r hr
    exact ⟨hwallet, hextends.actions _ _ haction, (hmarked _).mpr (.inl hexecuted)⟩
  cases h with
  | kept _ _ hbans => exact hold (hbans ▸ hr)
  | @listed id wallet₁ r₁ _ _ _ hbans hwallet hid hexecutes haction =>
    rw [hbans, Table.lookup_insert_eq] at hr
    split_ifs at hr with hsame
    · subst hsame
      obtain rfl := Option.some.inj hr
      rw [← hid] at haction hexecutes
      exact ⟨hwallet, hextends.actions _ _ haction, (hmarked _).mpr (.inr hexecutes)⟩
    · exact hold hr
  | @delisted id wallet₁ r₁ _ _ _ hbans =>
    rw [hbans] at hr
    by_cases hsame : wallet = wallet₁
    · subst hsame
      rw [Finmap.lookup_erase] at hr
      cases hr
    · rw [Finmap.lookup_erase_ne hsame] at hr
      exact hold hr

theorem step_banBooks (hs : ProposalsSound w) (hw : BanBooks w) (h : step w e = .ok w') :
    BanBooks w' := by
  have hchange := step_change h
  have hban := banChange hs hchange
  exact ⟨hban.balance hw, hban.records hchange.extends (fun id => (hchange.executed id).1) hw⟩

def actionsOn (f : Event → Option (ℕ × Address)) (wallet : Address)
    (H : List (Transition GovernanceWorld Event)) : ℕ :=
  H.countP fun t => (f t.label).any (·.2 = wallet)

theorem actionsOn_concat (f : Event → Option (ℕ × Address)) (wallet : Address)
    (H : List (Transition GovernanceWorld Event)) (t : Transition GovernanceWorld Event) :
    actionsOn f wallet (H ++ [t]) =
      actionsOn f wallet H + if (f t.label).any (·.2 = wallet) = true then 1 else 0 := by
  rw [actionsOn, List.countP_append, List.countP_singleton]
  rfl

/-- The executed proposals are those that the run executed. -/
def Recorded (H : List (Transition GovernanceWorld Event)) (w : GovernanceWorld) : Prop :=
  ∀ wallet, listings w wallet = actionsOn lists wallet H ∧
    delistings w wallet = actionsOn delists wallet H

theorem BanChange.recorded (h : BanChange w e w') {H : List (Transition GovernanceWorld Event)}
    (hw : Recorded H w) : Recorded (H ++ [⟨w, e, w'⟩]) w' := by
  intro wallet
  obtain ⟨hlistings, hdelistings⟩ := hw wallet
  rw [listings] at hlistings ⊢
  rw [delistings] at hdelistings ⊢
  rw [actionsOn_concat, actionsOn_concat]
  cases h with
  | kept hlists hdelists _ hcount =>
    simp only [hcount (isListing wallet) rfl, hcount (isDelisting wallet) rfl, hlists, hdelists,
      Option.any_none, Bool.false_eq_true, if_false, add_zero]
    exact ⟨hlistings, hdelistings⟩
  | listed hlists hdelists _ _ _ _ _ _ hcount =>
    simp only [hcount, hlists, hdelists, Option.any_none, Option.any_some, isListing,
      isDelisting, Bool.false_eq_true, if_false, add_zero, hlistings]
    exact ⟨rfl, hdelistings⟩
  | delisted hlists hdelists _ _ hcount =>
    simp only [hcount, hlists, hdelists, Option.any_none, Option.any_some, isListing,
      isDelisting, Bool.false_eq_true, if_false, add_zero, hdelistings]
    exact ⟨hlistings, rfl⟩

/-- A proposal that authorizes an action of a kind, in the state that executes it. -/
structure Authorizes (w : GovernanceWorld) (kind : GovernanceAction → Bool) (id : ℕ)
    (p : Proposal) (c : GovernanceConfig) : Prop where
  proposal : w.proposals.lookup id = some p
  config : w.config = some c
  category : p.category = .standards
  unexecuted : p.executed = false
  action : ∃ a, w.actions.lookup id = some a ∧ kind a = true
  votesFor : p.votesFor = voteTotal w id true
  votesAgainst : p.votesAgainst = voteTotal w id false
  passes : Passes p
  timelock : p.votingEndsAt + c.voteLockSecs ≤ w.clock

theorem authorizes_of_executable {c : GovernanceConfig} {a : GovernanceAction}
    (hw : ProposalsSound w) (hp : w.proposals.lookup id = some p) (hc : w.config = some c)
    (hcategory : p.category = .standards) (h : Executable p c w.clock)
    (ha : w.actions.lookup id = some a) (hkind : kind a = true) : Authorizes w kind id p c :=
  have hsound := hw.sound id p hp
  { proposal := hp
    config := hc
    category := hcategory
    unexecuted := h.executed
    action := ⟨a, ha, hkind⟩
    votesFor := hsound.votesFor
    votesAgainst := hsound.votesAgainst
    passes := hsound.accepted h.accepted
    timelock := h.timelock }

theorem authorizes_of_change (hw : ProposalsSound w) (h : Change w e w') {wallet : Address} :
    (lists e = some (id, wallet) → ∃ p c, Authorizes w (isListing wallet) id p c) ∧
    (delists e = some (id, wallet) → ∃ p c, Authorizes w (isDelisting wallet) id p c) := by
  have hnot {o : Option (ℕ × Address)} (h : o = none) {A : Prop} (hsome : o = some (id, wallet)) :
      A := absurd hsome (not_eq_some h _)
  cases h with
  | outside h | created h => exact ⟨hnot h.2.2.1, hnot h.2.2.2⟩
  | @rewritten _ p _ hp _ _ _ hrewrite =>
    cases hrewrite with
    | linked he | tallied he | settled he => exact ⟨hnot (he ▸ rfl), hnot (he ▸ rfl)⟩
    | voted h => exact ⟨hnot h.2.2.1, hnot h.2.2.2⟩
    | executed _ _ _ _ hexecution =>
      cases hexecution with
      | recorded hlists hdelists => exact ⟨hnot hlists, hnot hdelists⟩
      | @listed c _ r he hc hcategory hexecutable _ _ _ haction =>
        subst he
        refine ⟨fun h => ?_, hnot rfl⟩
        obtain ⟨rfl, rfl⟩ := Prod.mk.inj (Option.some.inj h)
        exact ⟨p, c, authorizes_of_executable hw hp hc hcategory hexecutable haction
          (decide_eq_true rfl)⟩
      | @delisted c _ r he hc hcategory hexecutable _ haction =>
        subst he
        refine ⟨hnot rfl, fun h => ?_⟩
        obtain ⟨rfl, rfl⟩ := Prod.mk.inj (Option.some.inj h)
        exact ⟨p, c, authorizes_of_executable hw hp hc hcategory hexecutable haction
          (decide_eq_true rfl)⟩

end

/-- The ban list is what executed votes made of it, in every run of the program. -/
theorem ban_list_follows_votes {w₀ : GovernanceWorld} (h : Deployed w₀) (txs : List Event) :
    (∀ wallet,
      (walletIsBanned (run step w₀ txs) wallet = true ↔
        delistings (run step w₀ txs) wallet < listings (run step w₀ txs) wallet) ∧
      (listings (run step w₀ txs) wallet = delistings (run step w₀ txs) wallet ∨
        listings (run step w₀ txs) wallet = delistings (run step w₀ txs) wallet + 1) ∧
      listings (run step w₀ txs) wallet = actionsOn lists wallet (transitions step w₀ txs) ∧
      delistings (run step w₀ txs) wallet = actionsOn delists wallet (transitions step w₀ txs)) ∧
    (used executes (transitions step w₀ txs)).Nodup ∧
    (∀ t ∈ transitions step w₀ txs, Extends t.before (run step w₀ txs) ∧ ∀ id wallet,
      (lists t.label = some (id, wallet) →
        ∃ p c, Authorizes t.before (isListing wallet) id p c) ∧
      (delists t.label = some (id, wallet) →
        ∃ p c, Authorizes t.before (isDelisting wallet) id p c)) ∧
    ∀ wallet r, (run step w₀ txs).bans.lookup wallet = some r → r.wallet = wallet ∧
      (run step w₀ txs).actions.lookup r.authorizingProposal =
        some (.listWallet wallet r.reason r.evidenceHash) ∧
      r.authorizingProposal ∈ used executes (transitions step w₀ txs) := by
  have hbooks : (ProposalsSound (run step w₀ txs) ∧ BanBooks (run step w₀ txs)) ∧
      Recorded (transitions step w₀ txs) (run step w₀ txs) := by
    have hstart : (ProposalsSound w₀ ∧ BanBooks w₀) ∧ Recorded [] w₀ := by
      refine ⟨⟨proposalsSound_deployed h, banBooks_deployed h⟩, fun wallet => ?_⟩
      rw [listings, delistings, executedCount, executedCount, h.proposals]
      exact ⟨rfl, rfl⟩
    refine run_history_rule (G := fun _ => True)
      (J := fun H w => (ProposalsSound w ∧ BanBooks w) ∧ Recorded H w) ?_ hstart txs
      fun _ _ => trivial
    rintro H w e w' ⟨⟨hsound, hbooks⟩, hrecorded⟩ hs -
    exact ⟨⟨step_sound hsound hs, step_banBooks hsound hbooks hs⟩,
      (banChange hsound (step_change hs)).recorded hrecorded⟩
  obtain ⟨⟨-, hban⟩, hrecorded⟩ := hbooks
  obtain ⟨hnodup, hused⟩ := run_used executes
    (fun _ _ _ hs id => ((step_change hs).executed id).1)
    (fun _ _ _ hs id => ((step_change hs).executed id).2)
    (not_marked_deployed h) txs
  refine ⟨fun wallet => ?_, hnodup, fun t ht => ⟨extends_of_mem ht, fun id wallet => ?_⟩,
    fun wallet r hr => ?_⟩
  · have hbalance := hban.balance wallet
    refine ⟨?_, ?_, hrecorded wallet⟩
    · cases hbanned : walletIsBanned (run step w₀ txs) wallet with
      | false =>
        simp only [hbanned, Bool.false_eq_true, if_false] at hbalance
        simp only [Bool.false_eq_true, false_iff]
        omega
      | true =>
        simp only [hbanned, if_true] at hbalance
        simp only [true_iff]
        omega
    · split_ifs at hbalance
      · exact .inr hbalance
      · exact .inl hbalance
  · obtain ⟨hsound, hstep⟩ := invariant_of_mem (I := ProposalsSound) (G := fun _ => True)
      (fun _ _ _ hw hs _ => step_sound hw hs) (proposalsSound_deployed h) (fun _ _ => trivial) ht
    exact authorizes_of_change hsound (step_change hstep)
  · obtain ⟨hwallet, haction, hexecuted⟩ := hban.records wallet r hr
    exact ⟨hwallet, haction, (hused _).mp hexecuted⟩

def listedOnce : List Event :=
  constituted ++ passed 0 7 (.listWallet (.wallet 66) .scam zeroDigest) ++
    [.invoke (.listWallet 7 (.wallet 66))]

def listedAndDelisted : List Event :=
  listedOnce ++ passed 100 8 (.delistWallet (.wallet 66)) ++
    [.invoke (.delistWallet 8 (.wallet 66)), .invoke (.listWallet 7 (.wallet 66))]

theorem ban_list_follows_votes_delisted :
    Deployed emptyGovernance ∧
    (walletIsBanned (run step emptyGovernance listedOnce) (.wallet 66) = true ∧
      delistings (run step emptyGovernance listedOnce) (.wallet 66) <
        listings (run step emptyGovernance listedOnce) (.wallet 66)) ∧
    listings (run step emptyGovernance listedAndDelisted) (.wallet 66) = 1 ∧
    actionsOn delists (.wallet 66) (transitions step emptyGovernance listedAndDelisted) = 1 ∧
    walletIsBanned (run step emptyGovernance listedAndDelisted) (.wallet 66) = false := by
  obtain ⟨hlisted, -⟩ := ban_list_follows_votes deployed_emptyGovernance listedOnce
  have hbanned : walletIsBanned (run step emptyGovernance listedOnce) (.wallet 66) = true := by
    decide +kernel
  obtain ⟨hdelisted, -⟩ := ban_list_follows_votes deployed_emptyGovernance listedAndDelisted
  have hcount : delistings (run step emptyGovernance listedAndDelisted) (.wallet 66) = 1 := by
    decide +kernel
  exact ⟨deployed_emptyGovernance, ⟨hbanned, (hlisted (.wallet 66)).1.mp hbanned⟩,
    by decide +kernel, (hdelisted (.wallet 66)).2.2.2.symm.trans hcount, by decide +kernel⟩

end OpenFiat.BanListAuthority
