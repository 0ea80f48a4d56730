import OpenFiat.DisputeBench

/-!
# The draw for a seat widens

The threshold of the draw depends on the time through the slice of the commit window that the
time falls into. Slices only go up with time and thresholds with slices, and in the last slice
everyone is drawn. A case keeps the window that its round was opened with, and that window is
long enough for its last slice to begin before the deadline. So each round has a moment from
which on no eligible arbitrator is refused by the draw.

The threshold that a draw starts from is not kept with the case: each commit reads it from the
fee configuration. A round draws the same wallets at a later time only as long as nobody changes
it.
-/
namespace OpenFiat.SeatDraw
open GuardedResult ProgramAddress EscrowAccounts
open ChainWorld EscrowDisputes TransactionRuns ChainSteps LedgerCustody DisputeSteps DisputeBench
open Sortition

/-- A draw that narrows the field: neither switched off nor with a window that cannot be
cut into slices. -/
def Widens (initial : ℕ) (windowStart windowEnd : ℤ) : Prop :=
  ¬ (initial = 0 ∨ sortitionBpsDenominator ≤ initial) ∧
    ¬ (¬ InI64 (windowEnd - windowStart) ∨ windowEnd - windowStart ≤ 0)

def elapsedIn (windowStart windowEnd now : ℤ) : ℤ :=
  max 0 (min (windowEnd - windowStart) (saturatingSubI64 now windowStart))

def sliceAt (windowStart windowEnd now : ℤ) : ℕ :=
  min (elapsedIn windowStart windowEnd now * sortitionWideningSteps /
    (windowEnd - windowStart)).toNat (sortitionWideningSteps - 1)

def sliceThreshold (initial step : ℕ) : ℕ :=
  if step = sortitionWideningSteps - 1 then sortitionBpsDenominator
  else min (initial * 2 ^ step) sortitionBpsDenominator

section
variable {initial : ℕ} {windowStart windowEnd now now' : ℤ}

theorem threshold_of_widens (h : Widens initial windowStart windowEnd) :
    sortitionThresholdBps initial windowStart windowEnd now =
      sliceThreshold initial (sliceAt windowStart windowEnd now) := by
  rw [sortitionThresholdBps, if_neg h.1]
  exact if_neg h.2

theorem threshold_of_not_widens (h : ¬ Widens initial windowStart windowEnd) :
    sortitionThresholdBps initial windowStart windowEnd now = sortitionBpsDenominator := by
  rw [sortitionThresholdBps]
  split_ifs with hoff
  · rfl
  · refine if_pos ?_
    by_contra hwindow
    exact h ⟨hoff, hwindow⟩

theorem sliceAt_mono (hpos : 0 < windowEnd - windowStart) (h : now ≤ now') :
    sliceAt windowStart windowEnd now ≤ sliceAt windowStart windowEnd now' := by
  have helapsed : elapsedIn windowStart windowEnd now ≤ elapsedIn windowStart windowEnd now' :=
    max_le_max_left 0 (min_le_min_left _ (by unfold saturatingSubI64; omega))
  have hscaled : elapsedIn windowStart windowEnd now * sortitionWideningSteps ≤
      elapsedIn windowStart windowEnd now' * sortitionWideningSteps :=
    Int.mul_le_mul_of_nonneg_right helapsed (Int.natCast_nonneg _)
  exact min_le_min_right _ (Int.toNat_le_toNat (Int.ediv_le_ediv hpos hscaled))

theorem sliceThreshold_le (step : ℕ) : sliceThreshold initial step ≤ sortitionBpsDenominator := by
  unfold sliceThreshold
  split_ifs
  · exact le_refl _
  · exact min_le_right _ _

theorem le_sliceThreshold (step : ℕ) :
    min initial sortitionBpsDenominator ≤ sliceThreshold initial step := by
  unfold sliceThreshold
  split_ifs
  · exact min_le_right _ _
  · exact min_le_min_right _ (Nat.le_mul_of_pos_right initial (Nat.two_pow_pos step))

/-- The doubling never falls back, and the last slice is open to everyone. -/
theorem sliceThreshold_mono {step step' : ℕ} (h : step ≤ step')
    (hlast : step' ≤ sortitionWideningSteps - 1) :
    sliceThreshold initial step ≤ sliceThreshold initial step' := by
  by_cases hopen : step' = sortitionWideningSteps - 1
  · rw [sliceThreshold.eq_def initial step', if_pos hopen]
    exact sliceThreshold_le step
  · have hearly : step ≠ sortitionWideningSteps - 1 := by omega
    rw [sliceThreshold, if_neg hearly, sliceThreshold, if_neg hopen]
    exact min_le_min_right _ (Nat.mul_le_mul_left initial (Nat.pow_le_pow_right two_pos h))

theorem threshold_mono (h : now ≤ now') :
    sortitionThresholdBps initial windowStart windowEnd now ≤
      sortitionThresholdBps initial windowStart windowEnd now' := by
  by_cases hwidens : Widens initial windowStart windowEnd
  · have hpos : 0 < windowEnd - windowStart := not_le.mp (not_or.mp hwidens.2).2
    rw [threshold_of_widens hwidens, threshold_of_widens hwidens]
    exact sliceThreshold_mono (sliceAt_mono hpos h) (min_le_right _ _)
  · rw [threshold_of_not_widens hwidens, threshold_of_not_widens hwidens]

theorem threshold_le : sortitionThresholdBps initial windowStart windowEnd now ≤
    sortitionBpsDenominator := by
  by_cases hwidens : Widens initial windowStart windowEnd
  · rw [threshold_of_widens hwidens]
    exact sliceThreshold_le _
  · rw [threshold_of_not_widens hwidens]

theorem le_threshold : min initial sortitionBpsDenominator ≤
    sortitionThresholdBps initial windowStart windowEnd now := by
  by_cases hwidens : Widens initial windowStart windowEnd
  · rw [threshold_of_widens hwidens]
    exact le_sliceThreshold _
  · rw [threshold_of_not_widens hwidens]
    exact min_le_right _ _

def lastSlice (window : ℤ) : ℤ := (7 * window + 7) / 8

variable (hnow : windowStart + lastSlice (windowEnd - windowStart) ≤ now)
include hnow

theorem sliceAt_last (h : ¬ (¬ InI64 (windowEnd - windowStart) ∨ windowEnd - windowStart ≤ 0)) :
    sliceAt windowStart windowEnd now = sortitionWideningSteps - 1 := by
  obtain ⟨hrange, hpos⟩ := not_or.mp h
  have hfits : windowEnd - windowStart < 2 ^ 63 := (not_not.mp hrange).2
  have hpos : 0 < windowEnd - windowStart := not_le.mp hpos
  have helapsed : 7 * (windowEnd - windowStart) ≤ 8 * elapsedIn windowStart windowEnd now := by
    unfold elapsedIn saturatingSubI64
    unfold lastSlice at hnow
    omega
  have hslice : 7 ≤ elapsedIn windowStart windowEnd now * sortitionWideningSteps /
      (windowEnd - windowStart) := by
    refine (Int.le_ediv_iff_mul_le hpos).mpr ?_
    rw [mul_comm (elapsedIn windowStart windowEnd now)]
    exact helapsed
  refine min_eq_right ?_
  change 7 ≤ _
  omega

theorem threshold_last :
    sortitionThresholdBps initial windowStart windowEnd now = sortitionBpsDenominator := by
  by_cases hwidens : Widens initial windowStart windowEnd
  · rw [threshold_of_widens hwidens, sliceAt_last hnow hwidens.2]
    exact if_pos rfl
  · exact threshold_of_not_widens hwidens

variable {P : Platform} {seed : Digest} {stakeAccount : Pubkey}

theorem qualifies_last :
    qualifiesForSeat P seed stakeAccount initial windowStart windowEnd now := by
  refine .inr ?_
  rw [threshold_last hnow]
  exact Nat.mod_lt _ (by decide)

end

/-- A case has the window that its round was opened with, and room to count its seats. -/
structure RoundWindow (c : DisputeCase) : Prop where
  deadline : c.commitDeadline = c.roundOpenedAt + c.commitWindowSecs
  secs : inDisputeWindow c.commitWindowSecs
  rounds : c.round < maxDisputeRounds
  seats : c.arbitrators.length ≤ maxArbitrators
  taken : c.seatsTakenTotal ≤ maxArbitrators * c.round + c.arbitrators.length

/-- Later in the same round, or in a later round. -/
def SameDraw (c c' : DisputeCase) : Prop :=
  c.round ≤ c'.round ∧ (c'.round = c.round → c'.caseSeed = c.caseSeed ∧
    c'.roundOpenedAt = c.roundOpenedAt ∧ c'.commitDeadline = c.commitDeadline)

section
variable {P : Platform} {w w' : World} {ix : Instruction} {id : ℕ} {now : ℤ}
  {c c' c'' : DisputeCase}

theorem RoundWindow.last_mem (h : RoundWindow c) :
    c.roundOpenedAt ≤ c.roundOpenedAt + lastSlice (c.commitDeadline - c.roundOpenedAt) ∧
      c.roundOpenedAt + lastSlice (c.commitDeadline - c.roundOpenedAt) < c.commitDeadline := by
  have hsecs : 60 ≤ c.commitWindowSecs := h.secs.1
  rw [h.deadline, lastSlice]
  omega

theorem RoundWindow.count_fits (h : RoundWindow c) : c.seatsTakenTotal + 1 < 2 ^ 32 := by
  have htaken := h.taken
  have hrounds := h.rounds
  have hseats := h.seats
  unfold maxArbitrators at htaken hseats
  unfold maxDisputeRounds at hrounds
  omega

theorem roundWindow_of_opened (h : CaseOpened w ix w' id c) : RoundWindow c := by
  cases h with
  | opened _ _ hcommit =>
    exact ⟨rfl, hcommit, Nat.zero_lt_succ _, Nat.zero_le _, Nat.zero_le _⟩

theorem RoundEnd.roundWindow (hs : RoundEnd now c c') (h : RoundWindow c) : RoundWindow c' := by
  cases hs with
  | decided | terminal => exact { h with }
  | reopened hround =>
    refine ⟨rfl, h.secs, hround, Nat.zero_le _, h.taken.trans ?_⟩
    exact Nat.add_le_add_left h.seats _

theorem CaseStep.roundWindow (hs : CaseStep P w ix w' id c c') (h : RoundWindow c) :
    RoundWindow c' := by
  cases hs with
  | toppedUp | revealed | claimed => exact { h with }
  | committed _ _ _ _ hroom =>
    refine ⟨h.deadline, h.secs, h.rounds, ?_, ?_⟩
    · rw [List.length_append]
      exact hroom
    · rw [List.length_append]
      exact Nat.add_le_add_right h.taken 1
  | executed _ _ _ _ _ _ hround =>
    exact RoundEnd.roundWindow (roundEnd_of_roundResult hround) h

theorem SameDraw.refl (c : DisputeCase) : SameDraw c c := ⟨le_refl _, fun _ => ⟨rfl, rfl, rfl⟩⟩

theorem SameDraw.trans (h : SameDraw c c') (h' : SameDraw c' c'') : SameDraw c c'' := by
  refine ⟨h.1.trans h'.1, fun hround => ?_⟩
  have hmiddle : c'.round = c.round := le_antisymm (hround ▸ h'.1) h.1
  obtain ⟨hseed, hopened, hdeadline⟩ := h.2 hmiddle
  obtain ⟨hseed', hopened', hdeadline'⟩ := h'.2 (hround.trans hmiddle.symm)
  exact ⟨hseed'.trans hseed, hopened'.trans hopened, hdeadline'.trans hdeadline⟩

theorem RoundEnd.sameDraw (hs : RoundEnd now c c') : SameDraw c c' := by
  cases hs with
  | decided | terminal => exact ⟨le_refl _, fun _ => ⟨rfl, rfl, rfl⟩⟩
  | reopened => exact ⟨Nat.le_succ _, fun h => absurd h (Nat.succ_ne_self _)⟩

theorem CaseStep.sameDraw (hs : CaseStep P w ix w' id c c') : SameDraw c c' := by
  cases hs with
  | toppedUp | committed | revealed | claimed => exact ⟨le_refl _, fun _ => ⟨rfl, rfl, rfl⟩⟩
  | executed _ _ _ _ _ _ hround => exact RoundEnd.sameDraw (roundEnd_of_roundResult hround)

/-- What a commit asks for besides the draw. -/
structure MayCommit (w : World) (id : ℕ) (c : DisputeCase) (arbitrator : Pubkey) : Prop where
  dispute : w.disputeCases.lookup id = some c
  key : c.reservationId = id
  stake : ∃ config secs stake first fees, loadStakingConfig w = .ok (config, secs) ∧
    loadStakeAccount w arbitrator .arbitrator = .ok (stake, first) ∧ w.feeConfig = some fees ∧
    config.minStakeByRole .arbitrator ≤ stake.effectiveStake config ∧
    stake.meetsStakeAge w.clock fees.minArbitratorStakeAgeSecs
  beforeDeadline : w.clock < c.commitDeadline
  notBarred : arbitrator ∉ c.barred
  notSeated : arbitrator ∉ c.arbitrators
  room : c.arbitrators.length < maxArbitrators

theorem commit_accepted {arbitrator : Pubkey} (hwindow : RoundWindow c)
    (h : MayCommit w id c arbitrator)
    (hnow : c.roundOpenedAt + lastSlice (c.commitDeadline - c.roundOpenedAt) ≤ w.clock)
    (commitment : Digest) : ∃ w', commitDisputeVote P w arbitrator id commitment = .ok w' := by
  obtain ⟨config, secs, stake, first, fees, hconfig, hstake, hfees, hmin, hage⟩ := h.stake
  refine ⟨w.setDisputeCase id (pushSeat c arbitrator commitment (c.seatsTakenTotal + 1)), ?_⟩
  simp only [commitDisputeVote, bind_ok, require_ok, pure_ok, exists_const, checkedAdd_ok,
    loadDisputeCase_ok, loadFeeConfig_ok]
  exact ⟨c, ⟨h.dispute, h.key⟩, (config, secs), hconfig, (stake, first), hstake, fees, hfees, hmin,
    hage, h.beforeDeadline, h.notBarred, qualifies_last hnow, h.notSeated, h.room, _,
    ⟨hwindow.count_fits, rfl⟩, rfl⟩

end

/-- The threshold never narrows and is open to everyone from the last slice of the window on,
or when the window cannot be cut. On every case that the program can reach the last slice
begins before the deadline, and from there on the draw refuses nobody. Whoever is drawn in a
round is drawn at every later time of it at which the configured threshold is the same. -/
theorem seat_draw_live (P : Platform) (w₀ : World) (hg : Genesis w₀) :
    (∀ (initial : ℕ) (windowStart windowEnd : ℤ),
      (∀ now now', now ≤ now' → sortitionThresholdBps initial windowStart windowEnd now ≤
        sortitionThresholdBps initial windowStart windowEnd now') ∧
      (∀ now, (0 < initial → min initial 10000 ≤
          sortitionThresholdBps initial windowStart windowEnd now) ∧
        sortitionThresholdBps initial windowStart windowEnd now ≤ 10000 ∧
        (windowStart + lastSlice (windowEnd - windowStart) ≤ now →
          sortitionThresholdBps initial windowStart windowEnd now = 10000) ∧
        (windowEnd ≤ windowStart ∨ ¬ InI64 (windowEnd - windowStart) →
          sortitionThresholdBps initial windowStart windowEnd now = 10000))) ∧
    (∀ txs id c, (run (step P) w₀ txs).disputeCases.lookup id = some c →
      ∃ t, c.roundOpenedAt ≤ t ∧ t < c.commitDeadline ∧ ∀ now, t ≤ now →
        (∀ stakeAccount initial, qualifiesForSeat P c.caseSeed stakeAccount initial
          c.roundOpenedAt c.commitDeadline now) ∧
        ∀ w arbitrator commitment, w.clock = now → MayCommit w id c arbitrator →
          ∃ w', commitDisputeVote P w arbitrator id commitment = .ok w') ∧
    (∀ txs later id c c' fees fees', (run (step P) w₀ txs).disputeCases.lookup id = some c →
      (run (step P) w₀ (txs ++ later)).disputeCases.lookup id = some c' → c'.round = c.round →
      (run (step P) w₀ txs).feeConfig = some fees →
      (run (step P) w₀ (txs ++ later)).feeConfig = some fees' →
      fees'.arbitratorSortitionBps = fees.arbitratorSortitionBps →
      ∀ stakeAccount now now', now ≤ now' →
        qualifiesForSeat P c.caseSeed stakeAccount fees.arbitratorSortitionBps c.roundOpenedAt
          c.commitDeadline now →
        qualifiesForSeat P c'.caseSeed stakeAccount fees'.arbitratorSortitionBps c'.roundOpenedAt
          c'.commitDeadline now') := by
  refine ⟨fun initial windowStart windowEnd => ⟨fun now now' => threshold_mono, fun now =>
    ⟨fun _ => le_threshold, threshold_le, threshold_last, fun hwindow => ?_⟩⟩,
      fun txs id c hc => ?_,
    fun txs later id c c' fees fees' hc hc' hround _ _ hbps stakeAccount now now' hnow hq => ?_⟩
  · refine threshold_of_not_widens fun hwidens => ?_
    obtain ⟨hrange, hpos⟩ := not_or.mp hwidens.2
    rcases hwindow with hempty | hwide
    · exact hpos (sub_nonpos.mpr hempty)
    · exact hrange hwide
  · have hwindow := run_forall_case (fun _ _ _ _ _ => roundWindow_of_opened)
      (fun _ _ _ _ _ _ => CaseStep.roundWindow) hg txs hc
    refine ⟨_, hwindow.last_mem.1, hwindow.last_mem.2, fun now hnow =>
      ⟨fun stakeAccount initial => qualifies_last hnow,
        fun w arbitrator commitment hclock hmay => ?_⟩⟩
    subst hclock
    exact commit_accepted hwindow hmay hnow commitment
  · rw [run_append] at hc'
    obtain ⟨c'', hc'', hdraw⟩ := run_case_relation (R := SameDraw) .refl (fun _ _ _ => .trans)
      (fun _ _ _ _ _ _ => CaseStep.sameDraw) (run_custodial hg txs) later hc
    obtain rfl := Option.mem_unique hc' hc''
    obtain ⟨hseed, hopened, hdeadline⟩ := hdraw.2 hround
    rw [hseed, hopened, hdeadline, hbps]
    exact hq.imp_right fun hticket => hticket.trans_le (threshold_mono hnow)

theorem seat_draw_live_caseSeven : Genesis emptyChain ∧ ∃ c t,
    (chainAfter (fundedEscrow 5 ++ [openCaseSeven])).disputeCases.lookup
      7 = some c ∧ t < c.commitDeadline ∧
    qualifiesForSeat recordedPlatform c.caseSeed (.stakeAccount (.wallet 30) .arbitrator) 1
      c.roundOpenedAt c.commitDeadline t ∧
    sortitionThresholdBps 1 0 60 52 = 64 ∧ sortitionThresholdBps 1 0 60 53 = 10000 := by
  have hopened : ((chainAfter
    (fundedEscrow 5 ++ [openCaseSeven])).disputeCases.lookup 7).isSome = true := by
    decide +kernel
  obtain ⟨c, hc⟩ := Option.isSome_iff_exists.mp hopened
  obtain ⟨hthreshold, hlive, -⟩ := seat_draw_live recordedPlatform emptyChain genesis_emptyChain
  obtain ⟨t, -, hbefore, hdrawn⟩ := hlive _ 7 c hc
  refine ⟨genesis_emptyChain, c, t, hc, hbefore, (hdrawn t (le_refl t)).1 _ 1, by decide, ?_⟩
  exact ((hthreshold 1 0 60).2 53).2.2.1 (by decide)

def drawlessRound : List Instruction :=
  fundedEscrow 5 ++ stakeArbitrators [(30, 10)] ++ [openCaseSeven]

/-- The administrator sets the starting threshold to one basis point. -/
def startDraw : Instruction :=
  .updateFeeConfig 0 (.fixed .mockUsdc) ⟨0, 5, 0, 10000, 0, 0, 0, 60⟩ treasuries 0 1
    [.fixed .mockUsdc]

/-- What becomes of a commit by wallet 30. -/
def commitOf (w : World) : Except Failure Unit :=
  (commitDisputeVote recordedPlatform w (.wallet 30) 7 (.filled 0)).map fun _ => ()

/-- Wallet 30 may take a seat, and may not any more after a change of the configuration, in the
same round and at the same time. -/
theorem drawn_wallet_refused : Genesis emptyChain ∧
    commitOf (chainAfter drawlessRound) = .ok () ∧
    commitOf (chainAfter (drawlessRound ++ [startDraw])) =
      .error (.escrow .notDrawnForThisCase) ∧
    [drawlessRound, drawlessRound ++ [startDraw]].map (fun txs =>
      let w := chainAfter txs
      (w.clock, (w.disputeCases.lookup 7).map (·.round))) = [(0, some 0), (0, some 0)] :=
  ⟨genesis_emptyChain, by decide +kernel, by decide +kernel, by decide +kernel⟩

end OpenFiat.SeatDraw
