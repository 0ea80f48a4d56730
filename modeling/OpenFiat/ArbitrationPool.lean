import OpenFiat.DisputeSteps
import OpenFiat.EscrowFailures

/-!
# Solvency of the arbitration pool

One token account holds the deposits of all dispute cases. A deposit grows by
top-ups while its case is open; when the case ends it is either returned to the
merchant's vault or becomes the reward of the winning seats, who then draw it
down. `DepositStep` says which of these a step performs on one case. Two results
follow: the pool always covers what it owes over all cases, and a run settles
each deposit at most once, in one of the two ways.
-/
namespace OpenFiat.ArbitrationPool
open GuardedResult FiniteTable TokenLedger ProgramAddress EscrowAccounts
open ChainWorld EscrowDisputes
open TransactionRuns ChainSteps LedgerCustody CustodyRefinement EscrowFailures DisputeSteps
open TokenLedger.Ledger

/-- The part of a case that its deposit passes through. -/
structure DepositState where
  amount : ℕ
  settled : Bool
  rewardPool : ℕ
  rewardRemaining : ℕ
  resolved : Bool

def depositState (c : DisputeCase) : DepositState :=
  ⟨c.deposit, c.depositSettled, c.rewardPool, c.rewardRemaining, c.resolved⟩

namespace DepositState

/-- What the pool still has to pay out for a deposit. -/
def owed (s : DepositState) : ℕ := if s.settled then s.rewardRemaining else s.amount

/-- A deposit is settled only with its case, rewards exist only after that, and a
resolved case holds no unsettled deposit. -/
structure Ok (s : DepositState) : Prop where
  settled : s.settled = true → s.resolved = true
  held : s.settled = false → s.rewardPool = 0 ∧ s.rewardRemaining = 0
  resolved : s.resolved = true → s.settled = true ∨ s.amount = 0

theorem Ok.unsettled {s : DepositState} (h : s.Ok) (hs : s.resolved = false) :
    s.settled = false := by
  cases hsettled : s.settled with
  | false => rfl
  | true => exact absurd (h.settled hsettled) (by rw [hs]; exact Bool.false_ne_true)

end DepositState

def poolPayments (t : Transition World Instruction) : List (Transfer Pubkey) :=
  Ledger.paidSince .arbitrationPool t.before.tokens t.after.tokens

def refundsDeposit (id : ℕ) (t : Transition World Instruction) : Bool :=
  executes id t && !(poolPayments t).isEmpty

def rewardPoolOf (w : World) (id : ℕ) : ℕ := (w.disputeCases.lookup id).elim 0 (·.rewardPool)

def forfeitsDeposit (id : ℕ) (t : Transition World Instruction) : Bool :=
  rewardPoolOf t.before id ≠ rewardPoolOf t.after id

def tokensOf : Pubkey → Pubkey
  | .liquidityVault merchant mint => .liquidityVaultTokens merchant mint
  | k => k

/-- What a transition does to the deposit of one case; a refund goes to `home`. -/
inductive DepositStep (t : Transition World Instruction) (id : ℕ) (home : Pubkey)
    (s : DepositState) : DepositState → Prop
  | kept : Ledger.Kept (· = .arbitrationPool) t.before.tokens t.after.tokens →
      DepositStep t id home s s
  | closed : s.settled = true ∨ s.amount = 0 →
      Ledger.Kept (· = .arbitrationPool) t.before.tokens t.after.tokens →
      DepositStep t id home s { s with resolved := true }
  | toppedUp {source : Pubkey} {n : ℕ} : executes id t = false → s.resolved = false →
      source ≠ .arbitrationPool →
      Ledger.Moved [⟨source, .arbitrationPool, n⟩] t.before.tokens t.after.tokens →
      DepositStep t id home s { s with amount := s.amount + n }
  | forfeited : s.settled = false → 0 < s.amount →
      Ledger.Kept (· = .arbitrationPool) t.before.tokens t.after.tokens →
      DepositStep t id home s ⟨s.amount, true, s.amount, s.amount, true⟩
  | refunded : executes id t = true → s.settled = false → 0 < s.amount →
      poolPayments t = [⟨.arbitrationPool, home, s.amount⟩] →
      t.before.tokens.balance .arbitrationPool ≤
        t.after.tokens.balance .arbitrationPool + s.amount →
      DepositStep t id home s { s with settled := true, resolved := true }
  | claimed {target : Pubkey} {n : ℕ} : executes id t = false → s.resolved = true →
      0 < s.rewardRemaining → n ≤ s.rewardRemaining →
      Ledger.Moved [⟨.arbitrationPool, target, n⟩] t.before.tokens t.after.tokens →
      DepositStep t id home s { s with rewardRemaining := s.rewardRemaining - n }

variable {c c' : DisputeCase}

section Steps
variable {P : Platform} {w w' : World} {ix : Instruction} {id : ℕ}
  {t : Transition World Instruction} {home : Pubkey} {s s' : DepositState}

theorem kept_of_docketPaid {d d' : Docket} (h : DocketPaid d d') :
    Ledger.Kept (· = .arbitrationPool) d.tokens d'.tokens := by
  obtain ⟨ms, n, hpaid⟩ := h.paid
  exact hpaid.moved.kept fun m hm => hpaid.source m hm ▸ Pubkey.noConfusion

theorem depositStep_of_settlement {outcome : Option DisputeOutcome} {d d₁ d₂ : Docket}
    (hs : DepositSettlement outcome d d₁) (hp : DocketPaid d₁ d₂) (hexec : executes id t = true)
    (hbefore : t.before.tokens = d.tokens) (hafter : t.after.tokens = d₂.tokens) :
    DepositStep t id (.liquidityVaultTokens d.openVault.merchant d.dispute.depositMint)
      (depositState d.dispute) { depositState d₂.dispute with resolved := true } := by
  have hkept := kept_of_docketPaid hp
  rw [hp.dispute]
  cases hs with
  | nothingHeld hheld =>
    refine .closed hheld ?_
    rw [hbefore, hafter]
    exact hkept
  | forfeited hsettled hpos =>
    refine .forfeited hsettled hpos ?_
    rw [hbefore, hafter]
    exact hkept
  | refunded hsettled hpos _ hmoved =>
    obtain ⟨ms, n, hpaid⟩ := hp.paid
    have hall := hmoved.trans hpaid.moved
    have hsource : ∀ m ∈ ms, m.source ≠ .arbitrationPool :=
      fun m hm => hpaid.source m hm ▸ Pubkey.noConfusion
    have hrest : (ms.filter fun m => m.source = .arbitrationPool) = [] :=
      List.filter_eq_nil_iff.mpr fun m hm h => hsource m hm (of_decide_eq_true h)
    refine .refunded hexec hsettled hpos ?_ ?_
    · rw [poolPayments, hbefore, hafter, paidSince,
        paidBy_of_history hall.history, List.drop_left, List.filter_append, hrest]
      rfl
    · have hbalance := hall.balance .arbitrationPool
      simp only [outflow_append, outflow_cons, outflow_nil, if_true,
        outflow_eq_zero hsource] at hbalance
      rw [hbefore, hafter]
      change _ ≤ _ + d.dispute.deposit
      omega

theorem depositStep_of_caseStep (hk : Keyed w) (hc : w.disputeCases.lookup id = some c)
    (h : CaseStep P w ix w' id c c') :
    DepositStep ⟨w, ix, w'⟩ id (tokensOf c.depositVault) (depositState c) (depositState c') := by
  cases h with
  | toppedUp hix hres _ _ hmoved =>
    exact .toppedUp (by rw [executes, hix]) hres Pubkey.noConfusion hmoved
  | committed _ _ _ _ _ htokens | revealed _ _ _ _ _ htokens =>
    exact .kept (htokens ▸ Ledger.Kept.refl _)
  | @executed a e v ov fees d hix hid hov hvault _ _ hround htokens =>
    have hhome : tokensOf c.depositVault = .liquidityVaultTokens ov.merchant c.depositMint := by
      obtain ⟨-, merchant, hdeposit⟩ := hk.dispute id c hc
      rw [hdeposit] at hvault ⊢
      obtain ⟨hmerchant, -⟩ := Pubkey.liquidityVault.inj hvault
      rw [tokensOf, ← hmerchant, (Prod.mk.inj (hk.vault _ _ hov)).1]
    have hexec : executes id ⟨w, ix, w'⟩ = true := by
      rw [hix]
      exact decide_eq_true hid
    rw [hhome]
    cases hround with
    | decided _ _ hs hp =>
      exact depositStep_of_settlement hs (payVerdict_paid hp) hexec rfl htokens
    | reopened _ _ hd =>
      obtain ⟨seed, rfl⟩ := reopenRound_ok hd
      exact .kept (htokens ▸ Ledger.Kept.refl _)
    | terminal _ hs hp =>
      exact depositStep_of_settlement hs (splitDocket_paid hp) hexec rfl htokens
  | claimed hix hres _ _ hpos _ _ _ hle hmoved =>
    exact .claimed (by rw [executes, hix]) hres hpos hle hmoved

theorem DepositStep.ok (h : DepositStep t id home s s') (hs : s.Ok) : s'.Ok := by
  cases h with
  | kept => exact hs
  | closed hheld => exact ⟨fun _ => rfl, hs.held, fun _ => hheld⟩
  | toppedUp _ hres =>
    exact ⟨hs.settled, hs.held, fun hres' => absurd hres' (by rw [hres]; exact Bool.false_ne_true)⟩
  | forfeited | refunded => exact ⟨fun _ => rfl, Bool.noConfusion, fun _ => .inl rfl⟩
  | claimed =>
    refine ⟨hs.settled, fun hsettled => ?_, hs.resolved⟩
    have hzero := (hs.held hsettled).2
    omega

/-- The pool pays no more for a case than its debt to the case falls. -/
theorem DepositStep.owed_le (h : DepositStep t id home s s') (hs : s.Ok) :
    s'.owed + t.before.tokens.balance .arbitrationPool ≤
      s.owed + t.after.tokens.balance .arbitrationPool := by
  cases h with
  | kept hkept | closed _ hkept => exact Nat.add_le_add_left (hkept.balance _ rfl) _
  | toppedUp _ hres hsource hmoved =>
    have hbalance := hmoved.balance .arbitrationPool
    simp only [outflow_cons, outflow_nil, inflow_cons, inflow_nil,
      if_true, hsource, if_false] at hbalance
    simp only [DepositState.owed, hs.unsettled hres, Bool.false_eq_true, if_false]
    omega
  | forfeited hsettled _ hkept =>
    simp only [DepositState.owed, hsettled, Bool.false_eq_true, if_false, if_true]
    exact Nat.add_le_add_left (hkept.balance _ rfl) _
  | refunded _ hsettled =>
    simp only [DepositState.owed, hsettled, Bool.false_eq_true, if_false, if_true,
      (hs.held hsettled).2]
    omega
  | claimed _ hres hpos hle hmoved =>
    have hsettled : s.settled = true := by
      cases hsettled : s.settled with
      | true => rfl
      | false => exact absurd (hs.held hsettled).2 hpos.ne'
    have hbalance := hmoved.balance .arbitrationPool
    simp only [outflow_cons, outflow_nil, inflow_cons, inflow_nil,
      if_true] at hbalance
    simp only [DepositState.owed, hsettled, if_true]
    omega

theorem depositState_of_opened (h : CaseOpened w ix w' id c) :
    depositState c = ⟨c.deposit, false, 0, 0, false⟩ := by
  cases h with
  | opened => rfl

end Steps

section Solvency
variable {P : Platform} {w w' : World} {ix : Instruction} {id : ℕ}

def poolLiability (w : World) : ℕ :=
  Table.total (fun _ c => (depositState c).owed) w.disputeCases

structure Solvent (w : World) : Prop where
  keyed : Keyed w
  deposits : ∀ id c, w.disputeCases.lookup id = some c → (depositState c).Ok
  covered : poolLiability w ≤ w.tokens.balance .arbitrationPool

theorem solvent_genesis (h : Genesis w) : Solvent w := by
  refine ⟨keyed_genesis h, Table.forall_of_empty h.disputeCases, ?_⟩
  · rw [poolLiability, h.disputeCases]
    exact Nat.zero_le _

theorem step_solvent (h : Solvent w) (hs : step P w ix = .ok w') : Solvent w' := by
  refine ⟨step_keyed h.keyed hs, ?_, ?_⟩
  · intro id c' hc'
    have hslot := step_slot h.keyed.tokens hs id
    rw [hc'] at hslot
    generalize hslot' : w.disputeCases.lookup id = slot at hslot
    cases hslot with
    | untouched => exact h.deposits id c' hslot'
    | opened hopened =>
      rw [depositState_of_opened hopened]
      exact ⟨Bool.noConfusion, fun _ => ⟨rfl, rfl⟩, Bool.noConfusion⟩
    | changed hstep =>
      exact (depositStep_of_caseStep h.keyed hslot' hstep).ok (h.deposits id _ hslot')
  · cases step_dispute h.keyed.tokens hs with
    | outside _ hout =>
      rw [poolLiability, hout.disputeCases]
      exact h.covered.trans (hout.tokens.balance _ rfl)
    | opened hnone hopened hcases =>
      have hstate := depositState_of_opened hopened
      rw [poolLiability, hcases]
      refine Table.total_insert_le h.covered ?_
      rw [hnone, hstate]
      cases hopened with
      | @opened _ mint _ _ _ e _ n _ _ _ _ _ _ hmoved =>
        have hbalance := hmoved.balance .arbitrationPool
        have hin : n ≤ inflow .arbitrationPool (payments
            (.liquidityVaultTokens e.seller mint) (depositPayments n)) :=
          le_inflow_payments (List.mem_singleton_self _)
        rw [outflow_payments, if_neg Pubkey.noConfusion] at hbalance
        simp only [DepositState.owed, newDisputeCase, Bool.false_eq_true, if_false]
        omega
    | changed hc hstep hcases =>
      rw [poolLiability, hcases]
      refine Table.total_insert_le h.covered ?_
      rw [hc]
      exact (depositStep_of_caseStep h.keyed hc hstep).owed_le (h.deposits _ _ hc)

theorem Solvent.owed_le (h : Solvent w) (hc : w.disputeCases.lookup id = some c) :
    (depositState c).owed ≤ w.tokens.balance .arbitrationPool :=
  (Table.le_total (fun _ c => (depositState c).owed) hc).trans h.covered

theorem Solvent.executes (h : Solvent w) (a : ExecuteAccounts) :
    Avoids (· = shortOf .arbitrationPool) (step P w (.executeDisputeOutcome a)) := by
  have hback : Backed (· = shortOf .arbitrationPool) w := by
    refine ⟨?_, ?_, ?_⟩
    · intro merchant mint v hv hb
      cases hb
    · intro id e he hst hb
      cases hb
    · intro id e v he hst hv hb
      cases hb
  have hbad := unchecked_shortOf .arbitrationPool
  refine avoids_step hbad (avoids_executeDisputeOutcome hbad hback (fun hb => by cases hb) ?_ a)
  intro id c hc _ hsettled
  have hle := h.owed_le hc
  simpa [DepositState.owed, depositState, hsettled] using hle

theorem Solvent.claims (h : Solvent w) (arbitrator id : ℕ) (mint target : Pubkey) :
    Avoids (· = shortOf .arbitrationPool)
      (step P w (.claimArbitrationReward arbitrator id mint target)) := by
  have hbad := unchecked_shortOf .arbitrationPool
  refine avoids_step hbad (avoids_claimArbitrationReward hbad ?_ _ _ _ _)
  intro id c hc _ hpos
  have hok := h.deposits id c hc
  have hle := h.owed_le hc
  cases hsettled : c.depositSettled with
  | false => exact absurd (hok.held hsettled).2 hpos.ne'
  | true => simpa [DepositState.owed, depositState, hsettled] using hle

end Solvency

section History
variable {P : Platform} {w w' : World} {ix : Instruction} {id : ℕ}
  {t : Transition World Instruction} {H : List (Transition World Instruction)}

/-- How often a run settled the deposit of a case, and how, against the case's
present record. -/
structure DepositHistory (id : ℕ) (H : List (Transition World Instruction))
    (slot : Option DisputeCase) : Prop where
  settled : H.countP (refundsDeposit id) + H.countP (forfeitsDeposit id) =
    slot.elim 0 fun c => if c.depositSettled then 1 else 0
  refunded : ∀ t ∈ H, refundsDeposit id t = true → ∃ c, slot = some c ∧ c.depositSettled = true ∧
    c.rewardPool = 0 ∧ poolPayments t = [⟨.arbitrationPool, tokensOf c.depositVault, c.deposit⟩]
  forfeited : ∀ t ∈ H, forfeitsDeposit id t = true → ∃ c, slot = some c ∧
    c.depositSettled = true ∧ c.rewardPool = c.deposit

/-- The three things a transition can mean for the settlement of a deposit: it
leaves it as it is, forfeits the deposit, or refunds it. -/
theorem DepositStep.settlement {home : Pubkey} {s s' : DepositState}
    (h : DepositStep t id home s s') (hs : s.Ok) :
    (refundsDeposit id t = false ∧ s'.rewardPool = s.rewardPool ∧ s'.settled = s.settled ∧
      (s.settled = true → s'.amount = s.amount)) ∨
    (refundsDeposit id t = false ∧ s.settled = false ∧ s'.settled = true ∧ 0 < s'.amount ∧
      s'.rewardPool = s'.amount) ∨
    (refundsDeposit id t = true ∧ s.settled = false ∧ s'.settled = true ∧ s'.rewardPool = 0 ∧
      poolPayments t = [⟨.arbitrationPool, home, s'.amount⟩]) := by
  have hquiet (hkept : Ledger.Kept (· = .arbitrationPool) t.before.tokens t.after.tokens) :
      refundsDeposit id t = false := by
    rw [refundsDeposit, poolPayments, hkept.paidSince rfl, List.isEmpty_nil, Bool.not_true,
      Bool.and_false]
  cases h with
  | kept hkept | closed _ hkept => exact .inl ⟨hquiet hkept, rfl, rfl, fun _ => rfl⟩
  | toppedUp hexec hres =>
    refine .inl ⟨by rw [refundsDeposit, hexec, Bool.false_and], rfl, rfl, fun hsettled => ?_⟩
    rw [hs.unsettled hres] at hsettled
    cases hsettled
  | forfeited hsettled hpos hkept => exact .inr (.inl ⟨hquiet hkept, hsettled, rfl, hpos, rfl⟩)
  | refunded hexec hsettled _ hpaid =>
    refine .inr (.inr ⟨?_, hsettled, rfl, (hs.held hsettled).1, hpaid⟩)
    rw [refundsDeposit, hexec, hpaid]
    rfl
  | claimed hexec =>
    exact .inl ⟨by rw [refundsDeposit, hexec, Bool.false_and], rfl, rfl, fun _ => rfl⟩

theorem depositVault_of_caseStep (h : CaseStep P w ix w' id c c') :
    c'.depositVault = c.depositVault := by
  cases h with
  | executed _ _ _ _ _ _ hround => exact (RoundResult.keys hround).2.2.2.2.1
  | _ => rfl

/-- A transition that settles nothing extends the history, as long as a settled case
keeps its figures. -/
theorem DepositHistory.quiet {slot slot' : Option DisputeCase} (h : DepositHistory id H slot)
    (hr : refundsDeposit id t = false) (hf : forfeitsDeposit id t = false)
    (hcount : (slot'.elim 0 fun c => if c.depositSettled then 1 else 0) =
      slot.elim 0 fun c => if c.depositSettled then 1 else 0)
    (hkeep : ∀ c, slot = some c → c.depositSettled = true → ∃ c', slot' = some c' ∧
      c'.depositSettled = true ∧ c'.rewardPool = c.rewardPool ∧ c'.deposit = c.deposit ∧
      c'.depositVault = c.depositVault) :
    DepositHistory id (H ++ [t]) slot' := by
  have hold {q : Transition World Instruction → Bool} (hq : q t = false)
      {u : Transition World Instruction} (hu : u ∈ H ++ [t]) (hqu : q u = true) : u ∈ H := by
    rcases List.mem_append.mp hu with hu | hu
    · exact hu
    · rw [List.mem_singleton.mp hu, hq] at hqu
      cases hqu
  refine ⟨?_, ?_, ?_⟩
  · rw [hcount, ← h.settled]
    simp [hr, hf]
  · intro u hu hu'
    obtain ⟨c, hc, hsettled, hpool, hpaid⟩ := h.refunded u (hold hr hu hu') hu'
    obtain ⟨c', hc', hsettled', hpool', hdeposit, hvault⟩ := hkeep c hc hsettled
    exact ⟨c', hc', hsettled', hpool'.trans hpool, by rw [hdeposit, hvault, hpaid]⟩
  · intro u hu hu'
    obtain ⟨c, hc, hsettled, hpool⟩ := h.forfeited u (hold hf hu hu') hu'
    obtain ⟨c', hc', hsettled', hpool', hdeposit, -⟩ := hkeep c hc hsettled
    exact ⟨c', hc', hsettled', by rw [hpool', hpool, hdeposit]⟩

/-- A transition that settles an unsettled case, in exactly one of the two ways. -/
theorem DepositHistory.settle (h : DepositHistory id H (some c))
    (hbefore : c.depositSettled = false) (hafter : c'.depositSettled = true)
    (hone : refundsDeposit id t = !forfeitsDeposit id t)
    (hrefund : refundsDeposit id t = true → c'.rewardPool = 0 ∧
      poolPayments t = [⟨.arbitrationPool, tokensOf c'.depositVault, c'.deposit⟩])
    (hforfeit : forfeitsDeposit id t = true → c'.rewardPool = c'.deposit) :
    DepositHistory id (H ++ [t]) (some c') := by
  have hunsettled {d : DisputeCase} (hd : some c = some d) : d.depositSettled ≠ true := by
    rw [← Option.some.inj hd, hbefore]
    exact Bool.false_ne_true
  refine ⟨?_, ?_, ?_⟩
  · have hcount := h.settled
    simp only [Option.elim_some, hbefore, Bool.false_eq_true, if_false] at hcount
    simp only [List.countP_append, List.countP_cons, List.countP_nil, Option.elim_some, hafter,
      if_true, hone]
    cases forfeitsDeposit id t with
    | true => simp only [Bool.not_true, Bool.false_eq_true, if_true, if_false]; omega
    | false => simp only [Bool.not_false, Bool.false_eq_true, if_true, if_false]; omega
  · intro u hu hr
    rcases List.mem_append.mp hu with hu | hu
    · obtain ⟨d, hd, hsettled, -⟩ := h.refunded u hu hr
      exact absurd hsettled (hunsettled hd)
    · rw [List.mem_singleton.mp hu] at hr ⊢
      exact ⟨c', rfl, hafter, hrefund hr⟩
  · intro u hu hf
    rcases List.mem_append.mp hu with hu | hu
    · obtain ⟨d, hd, hsettled, -⟩ := h.forfeited u hu hf
      exact absurd hsettled (hunsettled hd)
    · rw [List.mem_singleton.mp hu] at hf
      exact ⟨c', rfl, hafter, hforfeit hf⟩

theorem step_depositHistory (hw : Solvent w) (hs : step P w ix = .ok w')
    (h : DepositHistory id H (w.disputeCases.lookup id)) :
    DepositHistory id (H ++ [⟨w, ix, w'⟩]) (w'.disputeCases.lookup id) := by
  have hslot := step_slot hw.keyed.tokens hs id
  have hforfeit : forfeitsDeposit id ⟨w, ix, w'⟩ =
      decide ((w.disputeCases.lookup id).elim 0 (·.rewardPool) ≠
        (w'.disputeCases.lookup id).elim 0 (·.rewardPool)) := rfl
  generalize hold : w.disputeCases.lookup id = slot at hslot h hforfeit
  generalize w'.disputeCases.lookup id = slot' at hslot hforfeit ⊢
  cases hslot with
  | untouched hix =>
    refine h.quiet ?_ (hforfeit.trans (decide_eq_false fun h => h rfl)) rfl
      fun c hc hsettled => ⟨c, hc, hsettled, rfl, rfl, rfl⟩
    rw [refundsDeposit, executes_of_caseOf hix, Bool.false_and]
  | opened hopened =>
    cases hopened with
    | opened hix =>
      refine h.quiet ?_ (hforfeit.trans rfl) rfl fun c hc => ?_
      · rw [refundsDeposit, executes, hix, Bool.false_and]
      · cases hc
  | @changed c c' hstep =>
    have hok := hw.deposits id c hold
    have hvault := depositVault_of_caseStep hstep
    have hset := (depositStep_of_caseStep hw.keyed hold hstep).settlement hok
    rcases hset with ⟨hr, hpool, hsettled, hamount⟩ | ⟨hr, hbefore, hafter, hpos, hpool⟩ |
      ⟨hr, hbefore, hafter, hpool, hpaid⟩
    · refine h.quiet hr (hforfeit.trans (decide_eq_false fun h => h hpool.symm)) ?_ ?_
      · change (if (depositState c').settled then 1 else 0) = _
        rw [hsettled]
        rfl
      · intro d hd hd'
        obtain rfl := Option.some.inj hd
        exact ⟨c', rfl, hsettled.trans hd', hpool, hamount hd', hvault⟩
    · have hzero : c.rewardPool = 0 := (hok.held hbefore).1
      have hf : forfeitsDeposit id ⟨w, ix, w'⟩ = true := by
        refine hforfeit.trans (decide_eq_true fun heq => hpos.ne' ?_)
        exact hpool.symm.trans (heq.symm.trans hzero)
      exact h.settle hbefore hafter (by rw [hr, hf, Bool.not_true])
        (fun hr' => absurd hr' (Bool.eq_false_iff.mp hr)) fun _ => hpool
    · have hzero : c.rewardPool = 0 := (hok.held hbefore).1
      have hf : forfeitsDeposit id ⟨w, ix, w'⟩ = false :=
        hforfeit.trans (decide_eq_false fun h => h (hzero.trans hpool.symm))
      exact h.settle hbefore hafter (by rw [hr, hf, Bool.not_false])
        (fun _ => ⟨hpool, hvault ▸ hpaid⟩) fun hf' => absurd hf' (Bool.eq_false_iff.mp hf)

theorem run_deposits (hg : Genesis w) (txs : List Instruction) :
    Solvent (run (step P) w txs) ∧ ∀ id, DepositHistory id (transitions (step P) w txs)
      ((run (step P) w txs).disputeCases.lookup id) := by
  refine run_history_rule (J := fun H s => Solvent s ∧ ∀ id, DepositHistory id H
    (s.disputeCases.lookup id)) (G := fun _ => True) ?_ (H := []) ⟨solvent_genesis hg, ?_⟩ txs
    fun _ _ => trivial
  · intro H s ix s' hJ hs _
    exact ⟨step_solvent hJ.1 hs, fun id => step_depositHistory hJ.1 hs (hJ.2 id)⟩
  · intro id
    rw [hg.disputeCases]
    refine ⟨rfl, ?_, ?_⟩
    · intro t ht
      cases ht
    · intro t ht
      cases ht

end History

/-- In every reachable state the pool covers the unsettled deposits and the unclaimed
rewards of all cases, so neither executing a case nor claiming a reward finds it
short. Over the run each deposit is settled at most once, by a refund of the whole
deposit to the merchant's vault or by becoming the reward pool, and a resolved case
has settled whatever it held. -/
theorem arbitration_pool_solvency (P : Platform) (w₀ : World) (hg : Genesis w₀)
    (txs : List Instruction) :
    Table.total (fun _ (c : DisputeCase) =>
      if c.depositSettled then c.rewardRemaining else c.deposit)
        (run (step P) w₀ txs).disputeCases ≤
      (run (step P) w₀ txs).tokens.balance .arbitrationPool ∧
    (∀ a e, step P (run (step P) w₀ txs) (.executeDisputeOutcome a) = .error e →
      e ≠ shortOf .arbitrationPool) ∧
    (∀ arbitrator id mint target e, step P (run (step P) w₀ txs)
      (.claimArbitrationReward arbitrator id mint target) = .error e →
      e ≠ shortOf .arbitrationPool) ∧
    ∀ id c, (run (step P) w₀ txs).disputeCases.lookup id = some c →
      (transitions (step P) w₀ txs).countP (refundsDeposit id) +
          (transitions (step P) w₀ txs).countP (forfeitsDeposit id) =
        (if c.depositSettled then 1 else 0) ∧
      (∀ t ∈ transitions (step P) w₀ txs, refundsDeposit id t = true → c.rewardPool = 0 ∧
        poolPayments t = [⟨.arbitrationPool, tokensOf c.depositVault, c.deposit⟩]) ∧
      (∀ t ∈ transitions (step P) w₀ txs, forfeitsDeposit id t = true →
        c.rewardPool = c.deposit) ∧
      (c.resolved = true → c.depositSettled = true ∨ c.deposit = 0) := by
  obtain ⟨hsolvent, hhistory⟩ := run_deposits (P := P) hg txs
  refine ⟨hsolvent.covered, hsolvent.executes, hsolvent.claims, fun id c hc => ?_⟩
  have h := hhistory id
  rw [hc] at h
  refine ⟨h.settled, fun t ht hr => ?_, fun t ht hf => ?_, (hsolvent.deposits id c hc).resolved⟩
  · obtain ⟨c', hc', -, hpool, hpaid⟩ := h.refunded t ht hr
    rw [Option.some.inj hc']
    exact ⟨hpool, hpaid⟩
  · obtain ⟨c', hc', -, hpool⟩ := h.forfeited t ht hf
    rw [Option.some.inj hc']
    exact hpool

/-- A case that ends unstaffed has its deposit of 5 refunded. -/
theorem arbitration_pool_solvency_refund :
    (chainAfter (fundedEscrow 5 ++ openCaseSeven ::
      endUnstaffed)).tokens.balance (.liquidityVaultTokens (.wallet 1) (.wallet 50)) = 5 ∧
    (transitions (step recordedPlatform) emptyChain (fundedEscrow 5 ++ openCaseSeven ::
        endUnstaffed)).countP (refundsDeposit 7) +
      (transitions (step recordedPlatform) emptyChain (fundedEscrow 5 ++ openCaseSeven ::
        endUnstaffed)).countP (forfeitsDeposit 7) = 1 := by
  refine ⟨by decide +kernel, ?_⟩
  have hcase : ((chainAfter (fundedEscrow 5 ++ openCaseSeven ::
      endUnstaffed)).disputeCases.lookup 7).map (·.depositSettled) = some true := by
    decide +kernel
  obtain ⟨c, hc, hsettled⟩ := Option.map_eq_some_iff.mp hcase
  have h := ((arbitration_pool_solvency recordedPlatform emptyChain genesis_emptyChain
    _).2.2.2 7 c hc).1
  rwa [hsettled] at h

end OpenFiat.ArbitrationPool
