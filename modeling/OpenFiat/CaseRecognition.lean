import OpenFiat.FrozenSettlements
import OpenFiat.DisputeBench
import OpenFiat.OnchainDispute

/-!
# Decided cases seen from a node

Whatever the escrow program did before, the lists of a case are short and an unresolved case
has no outcome. So a node reads from the account of a case exactly the outcome that the case
records, and a ruling that it reads takes a frozen settlement to its end.
-/
namespace OpenFiat.CaseRecognition
open GuardedResult ProgramAddress EscrowAccounts
open ChainWorld EscrowDisputes TransactionRuns ChainSteps DisputeSteps DisputeBench
open NodePayloads TradingNode DisputeRegistry FrozenSettlements OnchainDispute

/-- The seats of a round and the barred seats are bounded, and only a resolved case has an
outcome. -/
structure Docketed (c : DisputeCase) : Prop extends Seating c where
  undecided : c.resolved = false → c.outcome = none

theorem Docketed.listsFit {c : DisputeCase} (h : Docketed c) : ListsFit c where
  arbitrators := h.seats.trans_lt (by decide)
  commitments := h.commitments ▸ h.seats.trans_lt (by decide)
  revealedOutcomes := h.revealedOutcomes ▸ h.seats.trans_lt (by decide)
  weights := h.weights ▸ h.seats.trans_lt (by decide)
  rewardClaimed := h.claims.trans_lt (by decide)
  barred := h.barredRoom.trans_lt (by decide)

section Steps
variable {P : Platform} {w w' : World} {ix : Instruction} {id : ℕ} {now : ℤ} {c c' : DisputeCase}

theorem docketed_of_opened (h : CaseOpened w ix w' id c) : Docketed c := by
  cases h with
  | opened => exact ⟨⟨rfl, rfl, rfl, Nat.zero_le _, Nat.zero_le _, Nat.zero_le _⟩, fun _ => rfl⟩

theorem RoundEnd.docketed (hs : RoundEnd now c c') (h : Docketed c) (hres : c.resolved = false) :
    Docketed c' := by
  have hseating := hs.seating h.toSeating
  cases hs with
  | decided => exact { hseating with undecided := fun hfalse => by cases hfalse }
  | reopened => exact { hseating with undecided := fun _ => h.undecided hres }
  | terminal => exact { hseating with undecided := fun _ => rfl }

theorem CaseStep.docketed (hs : CaseStep P w ix w' id c c') (h : Docketed c) : Docketed c' := by
  have hseating := CaseStep.seating hs h.toSeating
  cases hs with
  | toppedUp => exact { h with }
  | committed | revealed | claimed => exact { hseating with undecided := h.undecided }
  | executed _ _ _ _ hres _ hround =>
    exact RoundEnd.docketed (roundEnd_of_roundResult hround) h hres

theorem run_docketed (hg : Genesis w) (txs : List Instruction)
    (hc : (run (ChainSteps.step P) w txs).disputeCases.lookup id = some c) : Docketed c :=
  run_forall_case (fun _ _ _ _ _ => docketed_of_opened)
    (fun _ _ _ _ _ _ => CaseStep.docketed) hg txs
    hc

end Steps

/-- Recorded by any node in which it meets an unresolved dispute and a frozen settlement, the
resolution takes the settlement to the state that it stands for. -/
def Unfreezes (r : Resolution) : Prop :=
  ∀ (now : Timestamp) (n : Node) (did : DisputeId) (signature : String) (d : Dispute)
    (s : Settlement), n.disputes.lookup did = some d → d.status ≠ .resolved →
    n.settlements.lookup d.settlementId = some s → s.state = .disputed →
    ∃ n' s', applyOnchainExecution now n did signature (some r) = .ok n' ∧
      n'.settlements.lookup d.settlementId = some s' ∧ s'.state = settledAs r.escrowVerdict

theorem unfreezes (r : Resolution) : Unfreezes r := by
  intro now n did signature d s hd hstatus hs hstate
  obtain ⟨reservations, hresolved⟩ := attempt_resolved now r.escrowVerdict signature hs hstate
  refine ⟨_, SettlementRegistry.markResolved now s signature r.escrowVerdict,
    applyOnchainExecution_iff.mpr ⟨d, hd, hstatus, rfl⟩, ?_, ?_⟩
  · change (attempt n (SettlementRegistry.applyDisputeResolved now n d.settlementId
      r.escrowVerdict signature)).settlements.lookup d.settlementId = _
    rw [hresolved]
    exact Finmap.lookup_insert _
  · cases r.escrowVerdict <;> rfl

/-- On the account of any case that the program can reach: an outcome in favour of a party or
against the dispute is read as a resolution and takes a frozen settlement to its end; an
agreement of the parties is reported as an error; an unresolved case yields no resolution. -/
theorem decided_case_recognised (P : Platform) (hkeys : ∀ k, (P.keyBytes k).length = 32)
    (w : World) (hg : Genesis w) (txs : List Instruction) (id : ℕ) (c : DisputeCase)
    (hc : (run (ChainSteps.step P) w txs).disputeCases.lookup id = some c) (bump : UInt8)
    (trailing : List UInt8) :
    (c.resolved = true → ∀ outcome, c.outcome = some outcome → outcome ≠ .mutualSettlement →
      ∃ r, decodeOutcome escrowProgramId (caseBytes P bump c ++ trailing) = .ok (some r) ∧
        Unfreezes r) ∧
    (c.outcome = some .mutualSettlement →
      decodeOutcome escrowProgramId (caseBytes P bump c ++ trailing) = .error (.invalidParams
        "the chain settled this case by mutual agreement, which is not an arbitrator ruling")) ∧
    (c.resolved = false →
      decodeOutcome escrowProgramId (caseBytes P bump c ++ trailing) = .ok none) := by
  have hcase := run_docketed hg txs hc
  rw [decodeOutcome_caseBytes hkeys bump hcase.listsFit trailing]
  refine ⟨fun _ outcome houtcome hruling => ?_, fun houtcome => ?_, fun hopen => ?_⟩
  · rw [houtcome]
    cases outcome with
    | buyerWins => exact ⟨.buyerWins, rfl, unfreezes _⟩
    | merchantWins => exact ⟨.merchantWins, rfl, unfreezes _⟩
    | mutualSettlement => exact absurd rfl hruling
    | invalidDispute => exact ⟨.invalid, rfl, unfreezes _⟩
  · rw [houtcome]
    rfl
  · rw [hcase.undecided hopen]
    rfl

/-- The digest of a vote for an agreement under the zero salt, as recorded from SHA-256. -/
def agreementDigest : Digest :=
  ⟨[82, 59, 165, 167, 236, 147, 98, 219, 176, 128, 57, 163, 135, 146, 37, 146,
    204, 234, 61, 222, 99, 99, 68, 128, 205, 27, 5, 183, 189, 80, 162, 105], rfl⟩

/-- `recordedPlatform` with an address of full length for every key. -/
def accountPlatform : Platform where
  sha256 input := if input = 2 :: List.replicate 32 0 then agreementDigest else recordedSha256 input
  keyBytes key := (recordedPlatform.keyBytes key).takeD 32 0

theorem length_keyBytes_accountPlatform (key : Pubkey) :
    (accountPlatform.keyBytes key).length = 32 :=
  List.takeD_length _ _ _

/-- Three votes for the buyer, with one byte of the account left over. -/
theorem decided_case_recognised_buyer :
    ∃ c, (run (ChainSteps.step accountPlatform) emptyChain
        (buyerVerdict [30, 31, 32])).disputeCases.lookup 7 = some c ∧
      c.outcome = some .buyerWins ∧
      ∃ r, decodeOutcome escrowProgramId (caseBytes accountPlatform 255 c ++ [0]) =
          .ok (some r) ∧ Unfreezes r := by
  have hcase : ((run (ChainSteps.step accountPlatform) emptyChain
      (buyerVerdict [30, 31, 32])).disputeCases.lookup 7).map (fun c => (c.resolved, c.outcome)) =
        some (true, some .buyerWins) := by
    decide +kernel
  obtain ⟨c, hc, hfields⟩ := Option.map_eq_some_iff.mp hcase
  obtain ⟨hresolved, houtcome⟩ := Prod.mk.inj hfields
  exact ⟨c, hc, houtcome, (decided_case_recognised accountPlatform length_keyBytes_accountPlatform
    emptyChain genesis_emptyChain _ 7 c hc 255 [0]).1 hresolved _ houtcome (by decide)⟩

/-- The given wallets sit on the case and vote that the parties have agreed, and the verdict is
executed. -/
def agreementVerdict (arbitrators : List ℕ) : List Instruction :=
  fundedEscrow 5 ++ stakeArbitrators (arbitrators.map fun n => (n, 1)) ++ [openCaseSeven] ++
    (arbitrators.map fun n => .commitDisputeVote n 7 agreementDigest) ++
    [.advanceClock 60 emptyChain.slotHashes] ++
    (arbitrators.map fun n => .revealDisputeVote n 7 .mutualSettlement
      (.filled 0)) ++
    [.advanceClock 120 emptyChain.slotHashes, executeCaseSeven]

def readCase (txs : List Instruction) : Option (Bool × Except RpcError (Option Resolution)) :=
  ((run (ChainSteps.step accountPlatform) emptyChain txs).disputeCases.lookup 7).map fun c =>
    (c.resolved, decodeOutcome escrowProgramId (caseBytes accountPlatform 255 c))

/-- A resolved case may yield no resolution: after a verdict that the parties agreed the node
reads an error, and after a last round without a verdict an open case. -/
theorem resolved_cases_unread :
    readCase (agreementVerdict [30, 31, 32]) = some (true, .error (.invalidParams
      "the chain settled this case by mutual agreement, which is not an arbitrator ruling")) ∧
    readCase (fundedEscrow 5 ++ openCaseSeven :: endUnstaffed) = some (true, .ok none) := by
  decide +kernel

end OpenFiat.CaseRecognition
