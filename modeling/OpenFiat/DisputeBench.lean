import OpenFiat.DisputeSteps

/-!
# The bench of a dispute case across its rounds

A case keeps its arbitrators, their commitments, votes and weights in parallel
lists, which are cleared when a round is reopened; seats that stayed silent are
then barred. `Bench` collects what holds of the record itself. `BenchHistory`
compares it with the votes that the executed transitions contain: who sat and who
revealed in which round.
-/
namespace OpenFiat.DisputeBench
open ProgramAddress EscrowAccounts
open ChainWorld EscrowDisputes
open TransactionRuns ChainSteps LedgerCustody DisputeSteps

def silentSeats : List Pubkey → List (Option DisputeOutcome) → List Pubkey
  | [], _ => []
  | a :: seats, outcomes =>
    if outcomes.head?.join = none then a :: silentSeats seats outcomes.tail
    else silentSeats seats outcomes.tail

variable {a : Pubkey} {outcomes : List (Option DisputeOutcome)} {seats : List Pubkey}

theorem mem_silentSeats :
    a ∈ silentSeats seats outcomes ↔
      ∃ i : ℕ, seats[i]? = some a ∧ outcomes[i]?.join = none := by
  induction seats generalizing outcomes with
  | nil => simp [silentSeats]
  | cons b seats ih =>
    have htail (i : ℕ) : outcomes.tail[i]? = outcomes[i + 1]? := List.getElem?_tail
    have hhead : outcomes.head? = outcomes[0]? := List.head?_eq_getElem?
    constructor
    · intro h
      unfold silentSeats at h
      split_ifs at h with hsilent
      · rcases List.mem_cons.mp h with rfl | h
        · exact ⟨0, rfl, hhead ▸ hsilent⟩
        · obtain ⟨i, hi, ho⟩ := ih.mp h
          exact ⟨i + 1, hi, htail i ▸ ho⟩
      · obtain ⟨i, hi, ho⟩ := ih.mp h
        exact ⟨i + 1, hi, htail i ▸ ho⟩
    · intro h
      obtain ⟨i, hi, ho⟩ := h
      unfold silentSeats
      cases i with
      | zero =>
        rw [if_pos (hhead ▸ ho), ← Option.some.inj hi]
        exact List.mem_cons_self ..
      | succ i =>
        have hmem := ih.mpr ⟨i, hi, (htail i).symm ▸ ho⟩
        split_ifs
        · exact List.mem_cons_of_mem _ hmem
        · exact hmem

theorem length_silentSeats_le (seats : List Pubkey) (outcomes : List (Option DisputeOutcome)) :
    (silentSeats seats outcomes).length ≤ seats.length := by
  induction seats generalizing outcomes with
  | nil => exact le_rfl
  | cons a seats ih =>
    unfold silentSeats
    split_ifs
    · exact Nat.succ_le_succ (ih _)
    · exact (ih _).trans (Nat.le_succ _)

/-- With room for the whole bench, exactly the silent seats are collected. -/
theorem collectSilent_eq {barred : List Pubkey} {acc : List Pubkey}
    (hroom : barred.length + acc.length + seats.length ≤ maxBarredArbitrators)
    (hnew : ∀ a ∈ seats, a ∉ barred) :
    collectSilent barred seats outcomes acc = acc ++ silentSeats seats outcomes := by
  induction seats generalizing outcomes acc with
  | nil => exact (List.append_nil _).symm
  | cons a seats ih =>
    have ha := hnew a (List.mem_cons_self ..)
    have hrest : ∀ b ∈ seats, b ∉ barred := fun b hb => hnew b (List.mem_cons_of_mem _ hb)
    rw [List.length_cons] at hroom
    unfold collectSilent silentSeats
    rw [if_neg (by omega)]
    by_cases hsilent : outcomes.head?.join = none
    · rw [if_pos ⟨hsilent, ha⟩, if_pos hsilent, ih _ hrest, List.append_assoc,
        List.singleton_append]
      rw [List.length_append, List.length_singleton]
      omega
    · rw [if_neg fun h => hsilent h.1, if_neg hsilent]
      exact ih (by omega) hrest

theorem collectSilent_sublist (barred seats : List Pubkey)
    (outcomes : List (Option DisputeOutcome)) (acc : List Pubkey) :
    ∃ l, collectSilent barred seats outcomes acc = acc ++ l ∧ l.Sublist seats ∧
      (∀ a ∈ l, a ∉ barred) ∧ (barred.length + acc.length ≤ maxBarredArbitrators →
        barred.length + (acc ++ l).length ≤ maxBarredArbitrators) := by
  induction seats generalizing outcomes acc with
  | nil =>
    refine ⟨[], (List.append_nil _).symm, List.nil_sublist _, List.forall_mem_nil _, fun h => ?_⟩
    rwa [List.append_nil]
  | cons a seats ih =>
    unfold collectSilent
    split_ifs with hfull hsilent
    · refine ⟨[], (List.append_nil _).symm, List.nil_sublist _, List.forall_mem_nil _, fun h => ?_⟩
      rwa [List.append_nil]
    · obtain ⟨l, hl, hsub, hnew, hle⟩ := ih outcomes.tail (acc ++ [a])
      refine ⟨a :: l, by rw [hl, List.append_assoc, List.singleton_append],
        hsub.cons_cons a, ?_, ?_⟩
      · intro b hb
        rcases List.mem_cons.mp hb with rfl | hb
        · exact hsilent.2
        · exact hnew b hb
      · intro _
        rw [List.append_assoc] at hle
        refine hle ?_
        rw [List.length_append, List.length_singleton]
        omega
    · obtain ⟨l, hl, hsub, hnew, hle⟩ := ih outcomes.tail acc
      exact ⟨l, hl, hsub.cons a, hnew, hle⟩

theorem silentSeats_append (hlen : outcomes.length = seats.length) :
    silentSeats (seats ++ [a]) (outcomes ++ [none]) = silentSeats seats outcomes ++ [a] := by
  induction seats generalizing outcomes with
  | nil =>
    rw [List.length_eq_zero_iff.mp hlen]
    rfl
  | cons b seats ih =>
    cases outcomes with
    | nil => cases hlen
    | cons o =>
      have hrest := ih (Nat.succ.inj hlen)
      simp only [List.cons_append, silentSeats, List.head?_cons, List.tail_cons, hrest]
      cases o with
      | none | some => rfl

/-- A seat that reveals is no longer silent; all others stay as they are. -/
theorem mem_silentSeats_set {b : Pubkey} {i : ℕ} {o : DisputeOutcome} (hd : seats.Nodup)
    (ha : seats[i]? = some a) (ho : i < outcomes.length) :
    b ∈ silentSeats seats (outcomes.set i (some o)) ↔ b ∈ silentSeats seats outcomes ∧ b ≠ a := by
  rw [mem_silentSeats, mem_silentSeats]
  constructor
  · intro h
    obtain ⟨j, hj, hsilent⟩ := h
    have hij : i ≠ j := by
      rintro rfl
      rw [List.getElem?_set_self ho] at hsilent
      cases hsilent
    rw [List.getElem?_set_ne hij] at hsilent
    refine ⟨⟨j, hj, hsilent⟩, ?_⟩
    rintro rfl
    obtain ⟨hi, -⟩ := List.getElem?_eq_some_iff.mp ha
    exact hij ((List.getElem?_inj hi hd).mp (ha.trans hj.symm))
  · intro h
    obtain ⟨⟨j, hj, hsilent⟩, hne⟩ := h
    have hij : i ≠ j := by
      rintro rfl
      exact hne (Option.mem_unique hj ha)
    exact ⟨j, hj, by rwa [List.getElem?_set_ne hij]⟩

/-- The lists of the seats agree in length, and all lists keep within their space. -/
structure Seating (c : DisputeCase) : Prop where
  commitments : c.commitments.length = c.arbitrators.length
  revealedOutcomes : c.revealedOutcomes.length = c.arbitrators.length
  weights : c.weights.length = c.arbitrators.length
  seats : c.arbitrators.length ≤ maxArbitrators
  claims : c.rewardClaimed.length ≤ maxArbitrators
  barredRoom : c.barred.length ≤ maxBarredArbitrators

/-- What holds of a case at time `now`. Barred wallets keep off the bench until a
terminal split: the last round bars its silent seats too and leaves the bench as it
is. -/
structure Bench (now : ℤ) (c : DisputeCase) : Prop extends Seating c where
  distinct : c.arbitrators.Nodup
  barredDistinct : c.barred.Nodup
  round : c.round < maxDisputeRounds
  disjoint : c.terminalReason = none → ∀ a ∈ c.arbitrators, a ∉ c.barred
  unresolved : c.resolved = false →
    c.terminalReason = none ∧ c.barred.length ≤ maxArbitrators * c.round
  window : 0 < c.revealWindowSecs
  deadlines : c.commitDeadline < c.revealDeadline
  closed : c.resolved = true → c.revealDeadline ≤ now

section
variable {P : Platform} {w w' : World} {ix : Instruction} {id : ℕ} {c c' : DisputeCase}
variable {now : ℤ}

theorem Bench.mono {later : ℤ} (h : Bench now c) (hnow : now ≤ later) : Bench later c :=
  { h with closed := fun hres => (h.closed hres).trans hnow }

theorem bench_new {commitSecs revealSecs : ℤ} {seed : Digest} {seller mint : Pubkey}
    {deposit shortfall : ℕ} (hreveal : inDisputeWindow revealSecs) :
    Bench now (newDisputeCase now (now + commitSecs) (now + commitSecs + revealSecs) commitSecs
      revealSecs seed seller mint id deposit shortfall) where
  commitments := rfl
  revealedOutcomes := rfl
  weights := rfl
  seats := Nat.zero_le _
  distinct := List.nodup_nil
  barredDistinct := List.nodup_nil
  barredRoom := Nat.zero_le _
  claims := Nat.zero_le _
  round := Nat.zero_lt_succ _
  disjoint _ a ha := by cases ha
  unresolved _ := ⟨rfl, Nat.zero_le _⟩
  window := lt_of_lt_of_le (by decide) hreveal.1
  deadlines := lt_add_of_pos_right _ (lt_of_lt_of_le (by decide) hreveal.1)
  closed h := by cases h

/-- The case after an executed round, up to the figures of its deposit. -/
inductive RoundEnd (now : ℤ) (c : DisputeCase) : DisputeCase → Prop
  | decided {outcome : DisputeOutcome} {settled : Bool} {pool remaining : ℕ} :
      RoundEnd now c { c with
        depositSettled := settled, rewardPool := pool, rewardRemaining := remaining
        resolved := true, outcome := some outcome, winningWeight := weightBehind c outcome
        rewardClaimed := List.replicate c.arbitrators.length false }
  | reopened {seed : Digest} : c.round + 1 < maxDisputeRounds →
      RoundEnd now c (newRound (barSilentSeats c) (c.round + 1) now (now + c.commitWindowSecs)
        (now + c.commitWindowSecs + c.revealWindowSecs) seed)
  | terminal {settled : Bool} {pool remaining : ℕ} {reason : TerminalSplitReason} :
      RoundEnd now c { barSilentSeats c with
        depositSettled := settled, rewardPool := pool, rewardRemaining := remaining
        resolved := true, outcome := none, terminalReason := some reason }

theorem dispute_of_settlement {outcome : Option DisputeOutcome} {d d' : Docket}
    (h : DepositSettlement outcome d d') :
    ∃ settled pool remaining, d'.dispute = { d.dispute with
      depositSettled := settled, rewardPool := pool, rewardRemaining := remaining } := by
  cases h with
  | nothingHeld | forfeited | refunded => exact ⟨_, _, _, rfl⟩

theorem roundEnd_of_roundResult {fees : FeeConfig} {buyerTokenAccount : Pubkey} {d d' : Docket}
    (h : RoundResult P w fees buyerTokenAccount d d') : RoundEnd w.clock d.dispute d'.dispute := by
  cases h with
  | decided _ _ hs hp =>
    obtain ⟨settled, pool, remaining, hd⟩ := dispute_of_settlement hs
    rw [(payVerdict_paid hp).dispute, hd]
    exact .decided
  | reopened _ hround hr =>
    obtain ⟨seed, rfl⟩ := reopenRound_ok hr
    exact .reopened hround
  | terminal _ hs hp =>
    obtain ⟨settled, pool, remaining, hd⟩ := dispute_of_settlement hs
    rw [(splitDocket_paid hp).dispute, hd]
    exact .terminal

theorem length_barSilentSeats (h : c.barred.length ≤ maxBarredArbitrators) :
    (barSilentSeats c).barred.length ≤ maxBarredArbitrators := by
  obtain ⟨l, hl, -, -, hroom⟩ :=
    collectSilent_sublist c.barred c.arbitrators c.revealedOutcomes []
  rw [barSilentSeats, hl, List.length_append]
  exact hroom h

theorem Bench.nodup_barSilentSeats (h : Bench now c) : (barSilentSeats c).barred.Nodup := by
  obtain ⟨l, hl, hsub, hnew, -⟩ :=
    collectSilent_sublist c.barred c.arbitrators c.revealedOutcomes []
  rw [barSilentSeats, hl]
  refine List.nodup_append'.mpr ⟨h.barredDistinct, h.distinct.sublist hsub, ?_⟩
  exact fun a ha hal => hnew a hal ha

/-- While another round can follow, the cap drops no silent seat. -/
theorem Bench.barred_reopened (h : Bench now c) (hres : c.resolved = false)
    (hround : c.round + 1 < maxDisputeRounds) :
    (EscrowDisputes.barSilentSeats c).barred =
      c.barred ++ silentSeats c.arbitrators c.revealedOutcomes := by
  obtain ⟨hreason, hle⟩ := h.unresolved hres
  have hseats := h.seats
  rw [EscrowDisputes.barSilentSeats, collectSilent_eq ?_ (h.disjoint hreason), List.nil_append]
  unfold maxDisputeRounds at hround
  unfold maxBarredArbitrators maxDisputeRounds
  unfold maxArbitrators at hle hseats ⊢
  rw [List.length_nil]
  omega

theorem RoundEnd.seating (hs : RoundEnd now c c') (h : Seating c) : Seating c' := by
  cases hs with
  | decided =>
    exact { h with
      claims := by rw [List.length_replicate]; exact h.seats }
  | reopened =>
    exact ⟨rfl, rfl, rfl, Nat.zero_le _, Nat.zero_le _, length_barSilentSeats h.barredRoom⟩
  | terminal =>
    exact { h with
      barredRoom := length_barSilentSeats h.barredRoom }

theorem CaseStep.seating (hs : CaseStep P w ix w' id c c') (h : Seating c) : Seating c' := by
  cases hs with
  | toppedUp => exact { h with }
  | committed _ _ _ _ hroom =>
    exact { h with
      commitments := by simp [h.commitments]
      revealedOutcomes := by
        simp [h.revealedOutcomes]
      weights := by simp [h.weights]
      seats := by
        rw [List.length_append]
        exact hroom }
  | revealed =>
    exact { h with
      revealedOutcomes := by rw [List.length_set]; exact h.revealedOutcomes
      weights := by rw [List.length_set]; exact h.weights }
  | executed _ _ _ _ _ _ hround => exact (roundEnd_of_roundResult hround).seating h
  | claimed =>
    exact { h with
      claims := by rw [List.length_set]; exact h.claims }

theorem RoundEnd.bench (hs : RoundEnd now c c') (h : Bench now c) (hres : c.resolved = false)
    (hclock : c.revealDeadline ≤ now) : Bench now c' := by
  have hseating := hs.seating h.toSeating
  obtain ⟨hreason, hle⟩ := h.unresolved hres
  cases hs with
  | decided =>
    exact { hseating, h with
      unresolved := fun hfalse => by cases hfalse
      closed := fun _ => hclock }
  | terminal =>
    exact { hseating, h with
      barredDistinct := h.nodup_barSilentSeats
      disjoint := fun hnone => by cases hnone
      unresolved := fun hfalse => by cases hfalse
      closed := fun _ => hclock }
  | reopened hround =>
    refine { hseating, h with
      distinct := List.nodup_nil
      barredDistinct := h.nodup_barSilentSeats
      round := hround
      disjoint := fun _ a ha => by cases ha
      unresolved := fun _ => ⟨hreason, ?_⟩
      deadlines := lt_add_of_pos_right _ h.window
      closed := fun htrue => Bool.noConfusion (hres.symm.trans htrue) }
    rw [h.barred_reopened hres hround, List.length_append]
    exact Nat.add_le_add hle ((length_silentSeats_le _ _).trans h.seats)

theorem CaseStep.bench (hs : CaseStep P w ix w' id c c') (h : Bench w.clock c) :
    Bench w.clock c' := by
  have hseating := CaseStep.seating hs h.toSeating
  cases hs with
  | toppedUp => exact { h with }
  | @committed arbitrator _ _ _ hbar hnew =>
    exact { hseating, h with
      distinct := List.nodup_append'.mpr ⟨h.distinct, List.nodup_singleton _,
        List.disjoint_singleton.mpr hnew⟩
      disjoint := fun hreason => List.forall_mem_append.mpr
        ⟨h.disjoint hreason, List.forall_mem_singleton.mpr hbar⟩ }
  | revealed | claimed => exact { hseating, h with }
  | executed _ _ _ _ hres hclock hround =>
    exact (roundEnd_of_roundResult hround).bench h hres hclock

theorem Bench.serializedSize_le (h : Bench now c) :
    c.serializedSize ≤ DisputeCase.allocatedSpace := by
  have hoption {α : Type} (o : Option α) : optionSize 1 o ≤ 2 := by
    cases o with
    | none => exact Nat.le_succ 1
    | some => exact le_rfl
  have houtcomes : (c.revealedOutcomes.map (optionSize 1)).sum ≤ 2 * c.revealedOutcomes.length := by
    have hsum := List.sum_le_card_nsmul (c.revealedOutcomes.map (optionSize 1)) 2 fun n hn => by
      obtain ⟨o, -, rfl⟩ := List.mem_map.mp hn
      exact hoption o
    rwa [List.length_map, nsmul_eq_mul, mul_comm] at hsum
  have hseats := h.seats
  have hbarred := h.barredRoom
  have hclaims := h.claims
  have houtcome := hoption c.outcome
  have hreason := hoption c.terminalReason
  rw [h.revealedOutcomes] at houtcomes
  simp only [DisputeCase.serializedSize, DisputeCase.allocatedSpace, listSize, h.commitments,
    h.weights]
  omega

/-- The round of the case in which a transition takes place. -/
def roundOf (id : ℕ) (t : Transition World Instruction) : ℕ :=
  (t.before.disputeCases.lookup id).elim 0 (·.round)

def seatTaken (id : ℕ) (t : Transition World Instruction) : Option (ℕ × Pubkey) :=
  match t.label with
  | .commitDisputeVote arbitrator caseId _ =>
    if caseId = id then some (roundOf id t, .wallet arbitrator) else none
  | _ => none

def voteRevealed (id : ℕ) (t : Transition World Instruction) : Option (ℕ × Pubkey) :=
  match t.label with
  | .revealDisputeVote arbitrator caseId _ _ =>
    if caseId = id then some (roundOf id t, .wallet arbitrator) else none
  | _ => none

/-- The seats taken, the votes revealed and the rounds executed over a run. -/
def seatsTaken (id : ℕ) (H : List (Transition World Instruction)) : List (ℕ × Pubkey) :=
  H.filterMap (seatTaken id)

def votesRevealed (id : ℕ) (H : List (Transition World Instruction)) : List (ℕ × Pubkey) :=
  H.filterMap (voteRevealed id)

def roundsExecuted (id : ℕ) (H : List (Transition World Instruction)) : ℕ :=
  H.countP (executes id)

/-- What a case records of the seats `S` taken, the votes `V` revealed and
the `n` rounds executed so far. -/
structure BenchHistory (S V : List (ℕ × Pubkey)) (n : ℕ) (c : DisputeCase) : Prop where
  seated : ∀ a, (c.round, a) ∈ S ↔ a ∈ c.arbitrators
  silent : ∀ a, a ∈ silentSeats c.arbitrators c.revealedOutcomes ↔
    (c.round, a) ∈ S ∧ (c.round, a) ∉ V
  votes : ∀ p ∈ V, p ∈ S
  past : ∀ p ∈ S, p.1 ≤ c.round
  barred : c.resolved = false → ∀ a, a ∈ c.barred ↔ ∃ r < c.round, (r, a) ∈ S ∧ (r, a) ∉ V
  returned : ∀ r r' a, r < r' → (r, a) ∈ S → (r', a) ∈ S → (r, a) ∈ V
  count : c.seatsTakenTotal = S.length
  rounds : n = if c.resolved then c.round + 1 else c.round

variable {S V : List (ℕ × Pubkey)} {n : ℕ}

theorem benchHistory_new {commitSecs revealSecs : ℤ} {seed : Digest} {seller mint : Pubkey}
    {deposit shortfall : ℕ} : BenchHistory [] [] 0 (newDisputeCase now (now + commitSecs)
      (now + commitSecs + revealSecs) commitSecs revealSecs seed seller mint id deposit shortfall)
    where
  seated _ := ⟨fun h => (List.not_mem_nil h).elim, fun h => (List.not_mem_nil h).elim⟩
  silent _ := ⟨fun h => (List.not_mem_nil h).elim, fun h => (List.not_mem_nil h.1).elim⟩
  votes _ h := h
  past _ h := (List.not_mem_nil h).elim
  barred _ _ := ⟨fun h => (List.not_mem_nil h).elim, fun ⟨_, _, h, _⟩ => (List.not_mem_nil h).elim⟩
  returned _ _ _ _ h := (List.not_mem_nil h).elim
  count := rfl
  rounds := rfl

theorem mem_seatOf {r r' : ℕ} {a b : Pubkey} {L : List (ℕ × Pubkey)} :
    (r, b) ∈ L ++ [(r', a)] ↔ (r, b) ∈ L ∨ r = r' ∧ b = a := by
  rw [List.mem_append, List.mem_singleton, Prod.mk.injEq]

theorem BenchHistory.commit {commitment : Digest} (h : BenchHistory S V n c) (hb : Bench now c)
    (hres : c.resolved = false) (hbar : a ∉ c.barred) (hnew : a ∉ c.arbitrators) :
    BenchHistory (S ++ [(c.round, a)]) V n
      (pushSeat c a commitment (c.seatsTakenTotal + 1)) := by
  have hfresh : (c.round, a) ∉ V := fun hV => hnew ((h.seated a).mp (h.votes _ hV))
  refine ⟨fun b => ?_, fun b => ?_, fun p hp => List.mem_append_left _ (h.votes p hp),
    List.forall_mem_append.mpr ⟨h.past, List.forall_mem_singleton.mpr le_rfl⟩, fun _ b => ?_,
    fun r r' b hr hrb hrb' => ?_, ?_, h.rounds⟩
  · rw [mem_seatOf, h.seated, List.mem_append, List.mem_singleton, eq_self, true_and]
  · change b ∈ silentSeats (c.arbitrators ++ [a]) (c.revealedOutcomes ++ [none]) ↔ _
    rw [silentSeats_append hb.revealedOutcomes, List.mem_append, List.mem_singleton, h.silent,
      mem_seatOf, eq_self, true_and, or_and_right]
    refine or_congr_right ⟨fun hba => ⟨hba, hba ▸ hfresh⟩, And.left⟩
  · -- the new seat belongs to the current round, which bars nobody yet
    refine (h.barred hres b).trans (exists_congr fun r => and_congr_right fun hr => ?_)
    rw [mem_seatOf]
    refine and_congr_left fun _ => (or_iff_left fun heq => ?_).symm
    exact hr.ne heq.1
  · rcases mem_seatOf.mp hrb' with hold' | ⟨rfl, rfl⟩
    · rcases mem_seatOf.mp hrb with hold | ⟨rfl, -⟩
      · exact h.returned r r' b hr hold hold'
      · exact absurd (h.past _ hold') (not_le.mpr hr)
    · rcases mem_seatOf.mp hrb with hold | ⟨rfl, -⟩
      · by_contra hsilent
        exact hbar ((h.barred hres b).mpr ⟨r, hr, hold, hsilent⟩)
      · exact absurd hr (lt_irrefl _)
  · rw [List.length_append, List.length_singleton, ← h.count]

theorem BenchHistory.reveal {o : DisputeOutcome} {i weight : ℕ} (h : BenchHistory S V n c)
    (hb : Bench now c) (hi : c.arbitrators[i]? = some a) (ho : c.revealedOutcomes[i]? = some none) :
    BenchHistory S (V ++ [(c.round, a)]) n { c with
      revealedOutcomes := c.revealedOutcomes.set i (some o)
      weights := c.weights.set i weight } := by
  obtain ⟨hlt, -⟩ := List.getElem?_eq_some_iff.mp ho
  have hseated := (h.seated a).mpr (List.mem_of_getElem? hi)
  refine ⟨h.seated, fun b => ?_, List.forall_mem_append.mpr
    ⟨h.votes, List.forall_mem_singleton.mpr hseated⟩, h.past, fun hres b => ?_,
    fun r r' b hr hrb hrb' => List.mem_append_left _ (h.returned r r' b hr hrb hrb'), h.count,
    h.rounds⟩
  · rw [mem_silentSeats_set hb.distinct hi hlt, h.silent, mem_seatOf, eq_self, true_and, not_or,
      and_assoc]
  · refine (h.barred hres b).trans (exists_congr fun r => and_congr_right fun hr => ?_)
    rw [mem_seatOf]
    refine and_congr_right fun _ => not_congr (or_iff_left fun heq => ?_).symm
    exact hr.ne heq.1

theorem BenchHistory.execute (h : BenchHistory S V n c) (hb : Bench now c)
    (hres : c.resolved = false) (hs : RoundEnd now c c') : BenchHistory S V (n + 1) c' := by
  have hn : n = c.round := by
    have hrounds := h.rounds
    rwa [hres] at hrounds
  cases hs with
  | decided =>
    exact { h with
      barred := fun hfalse => by cases hfalse
      rounds := by rw [hn, if_pos rfl] }
  | terminal =>
    exact { h with
      barred := fun hfalse => by cases hfalse
      rounds := by rw [hn]; rfl }
  | reopened hround =>
    have hlater (a : Pubkey) : (c.round + 1, a) ∉ S := fun hp =>
      absurd (h.past _ hp) (Nat.not_succ_le_self _)
    refine ⟨fun a => ⟨fun hp => absurd hp (hlater a), fun ha => (List.not_mem_nil ha).elim⟩,
      fun a => ⟨fun ha => (List.not_mem_nil ha).elim, fun hp => absurd hp.1 (hlater a)⟩, h.votes,
      fun p hp => (h.past p hp).trans (Nat.le_succ _), fun _ a => ?_, h.returned, h.count, ?_⟩
    · rw [hb.barred_reopened hres hround, List.mem_append, h.barred hres, h.silent]
      constructor
      · intro hcases
        rcases hcases with ⟨r, hr, hp⟩ | hp
        · exact ⟨r, hr.trans (Nat.lt_succ_self _), hp⟩
        · exact ⟨c.round, Nat.lt_succ_self _, hp⟩
      · intro hex
        obtain ⟨r, hr, hp⟩ := hex
        rcases Nat.lt_succ_iff_lt_or_eq.mp hr with hr | rfl
        · exact .inl ⟨r, hr, hp⟩
        · exact .inr hp
    · change n + 1 = if c.resolved = true then _ else c.round + 1
      rw [hn, hres, if_neg Bool.false_ne_true]

/-- The record of one case slot against the executed transitions. -/
inductive SlotHistory (now : ℤ) (S V : List (ℕ × Pubkey)) (n : ℕ) : Option DisputeCase → Prop
  | unopened : S = [] → V = [] → n = 0 → SlotHistory now S V n none
  | opened {c : DisputeCase} : Bench now c → BenchHistory S V n c → SlotHistory now S V n (some c)

/-- A transition adds at most one seat, one vote and one executed round, and nothing
to a case that it does not write. -/
theorem events_of_caseOf {t : Transition World Instruction} (h : caseOf t.label ≠ some id) :
    seatTaken id t = none ∧ voteRevealed id t = none ∧ executes id t = false := by
  refine ⟨?_, ?_, executes_of_caseOf h⟩
  · unfold seatTaken
    split
    · rename_i heq
      rw [heq] at h
      exact if_neg fun hid => h (congrArg some hid)
    · rfl
  · unfold voteRevealed
    split
    · rename_i heq
      rw [heq] at h
      exact if_neg fun hid => h (congrArg some hid)
    · rfl

theorem step_slotHistory {H : List (Transition World Instruction)} (hc : Custodial w.tokens)
    (hs : step P w ix = .ok w') (hclock : w.clock ≤ w'.clock)
    (h : SlotHistory w.clock (seatsTaken id H) (votesRevealed id H) (roundsExecuted id H)
      (w.disputeCases.lookup id)) :
    SlotHistory w'.clock (seatsTaken id (H ++ [⟨w, ix, w'⟩]))
      (votesRevealed id (H ++ [⟨w, ix, w'⟩])) (roundsExecuted id (H ++ [⟨w, ix, w'⟩]))
      (w'.disputeCases.lookup id) := by
  have hslot := step_slot hc hs id
  have hround (c : DisputeCase) (hc : w.disputeCases.lookup id = some c) :
      roundOf id ⟨w, ix, w'⟩ = c.round := by rw [roundOf, hc, Option.elim_some]
  simp only [seatsTaken, votesRevealed, roundsExecuted] at h ⊢
  simp only [List.filterMap_append, List.countP_append, List.filterMap_cons, List.filterMap_nil,
    List.countP_singleton]
  generalize H.filterMap (seatTaken id) = S at h ⊢
  generalize H.filterMap (voteRevealed id) = V at h ⊢
  generalize H.countP (executes id) = n at h ⊢
  generalize hold : w.disputeCases.lookup id = slot at hslot h hround
  generalize w'.disputeCases.lookup id = slot' at hslot ⊢
  cases hslot with
  | untouched hix =>
    obtain ⟨hseat, hvote, hexec⟩ := events_of_caseOf (t := ⟨w, ix, w'⟩) hix
    rw [hseat, hvote, hexec]
    simp only [List.append_nil, Bool.false_eq_true, if_false, add_zero]
    cases h with
    | unopened hS hV hn => exact .unopened hS hV hn
    | opened hb hh => exact .opened (hb.mono hclock) hh
  | opened hopened =>
    cases h with
    | unopened hS hV hn =>
      cases hopened with
      | opened hix _ _ hreveal =>
        subst hix hS hV hn
        exact .opened ((bench_new hreveal).mono hclock) benchHistory_new
  | changed hstep =>
    cases h with
    | opened hb hh =>
      refine .opened ((CaseStep.bench hstep hb).mono hclock) ?_
      have hround := hround _ rfl
      cases hstep with
      | toppedUp hix | claimed hix =>
        subst hix
        simp only [seatTaken, voteRevealed, executes, List.append_nil]
        exact { hh with }
      | committed hix hlt hbar hnew =>
        subst hix
        have hopen := Bool.eq_false_iff.mpr fun hres =>
          absurd (hb.closed hres) (not_le.mpr (hlt.trans hb.deadlines))
        simp only [seatTaken, hround, if_true, voteRevealed, List.append_nil]
        exact hh.commit hb hopen hbar hnew
      | revealed hix hcommit hreveal hi ho =>
        subst hix
        obtain ⟨hlt, hseat, -⟩ := List.idxOf?_eq_some_iff.mp hi
        simp only [seatTaken, hround, if_true, voteRevealed, List.append_nil]
        exact hh.reveal hb (List.getElem?_eq_some_iff.mpr ⟨hlt, hseat⟩) ho
      | executed hix hid _ _ hres hdeadline hresult =>
        subst hix
        simp only [seatTaken, voteRevealed, List.append_nil, executes, hid, decide_true,
          if_true]
        exact hh.execute hb hres (roundEnd_of_roundResult hresult)

theorem run_slotHistory (hg : Genesis w) (txs : List Instruction)
    (hclock : ∀ t ∈ transitions (step P) w txs, ClockForward t) :
    Custodial (run (step P) w txs).tokens ∧ ∀ id, SlotHistory (run (step P) w txs).clock
      (seatsTaken id (transitions (step P) w txs)) (votesRevealed id (transitions (step P) w txs))
      (roundsExecuted id (transitions (step P) w txs))
      ((run (step P) w txs).disputeCases.lookup id) := by
  refine run_history_rule (J := fun H s => Custodial s.tokens ∧ ∀ id, SlotHistory s.clock
    (seatsTaken id H) (votesRevealed id H) (roundsExecuted id H) (s.disputeCases.lookup id))
    (G := ClockForward) ?_ (H := []) ⟨custodial_of_genesis hg, fun id => ?_⟩ txs hclock
  · intro H s ix s' hJ hs ht
    exact ⟨(step_headers hs).custodial hJ.1, fun id => step_slotHistory hJ.1 hs ht (hJ.2 id)⟩
  · rw [hg.disputeCases]
    exact .unopened rfl rfl rfl

end

/-- For every case of every run with a clock that never goes back: the per-seat lists
have one length of at most seven; the seats are distinct, and disjoint from the
barred wallets unless the case ended in a terminal split; the barred wallets are
distinct, fit their list and, while the case is unresolved, are exactly those that
took a seat in an earlier round and stayed silent in it; the seats taken are counted;
three executed rounds resolve the case; nobody who stayed silent sits again; and the
record fits the space allocated for it. -/
theorem dispute_bench_across_rounds (P : Platform) (w₀ : World) (hg : Genesis w₀)
    (txs : List Instruction) (hclock : ∀ t ∈ transitions (step P) w₀ txs, ClockForward t)
    (id : ℕ) (c : DisputeCase) (hc : (run (step P) w₀ txs).disputeCases.lookup id = some c) :
    (c.commitments.length = c.arbitrators.length ∧
      c.revealedOutcomes.length = c.arbitrators.length ∧
      c.weights.length = c.arbitrators.length ∧ c.arbitrators.length ≤ 7) ∧
    c.arbitrators.Nodup ∧ (c.terminalReason = none → ∀ a ∈ c.arbitrators, a ∉ c.barred) ∧
    (c.resolved = false → c.terminalReason = none) ∧
    c.barred.Nodup ∧ c.barred.length ≤ 14 ∧
    (c.resolved = false → ∀ a, a ∈ c.barred ↔ ∃ r < c.round,
      (r, a) ∈ seatsTaken id (transitions (step P) w₀ txs) ∧
      (r, a) ∉ votesRevealed id (transitions (step P) w₀ txs)) ∧
    c.seatsTakenTotal = (seatsTaken id (transitions (step P) w₀ txs)).length ∧
    c.round < maxDisputeRounds ∧
    roundsExecuted id (transitions (step P) w₀ txs) ≤ maxDisputeRounds ∧
    (roundsExecuted id (transitions (step P) w₀ txs) = maxDisputeRounds → c.resolved = true) ∧
    (∀ r r' a, r < r' → (r, a) ∈ seatsTaken id (transitions (step P) w₀ txs) →
      (r, a) ∉ votesRevealed id (transitions (step P) w₀ txs) →
      (r', a) ∉ seatsTaken id (transitions (step P) w₀ txs)) ∧
    c.serializedSize ≤ DisputeCase.allocatedSpace := by
  have hslot := (run_slotHistory (P := P) hg txs hclock).2 id
  rw [hc] at hslot
  cases hslot with
  | opened hb hh =>
    have hrounds := hh.rounds
    have hround := hb.round
    refine ⟨⟨hb.commitments, hb.revealedOutcomes, hb.weights, hb.seats⟩, hb.distinct, hb.disjoint,
      fun hres => (hb.unresolved hres).1, hb.barredDistinct, hb.barredRoom, hh.barred, hh.count,
      hround, ?_, fun hall => ?_, fun r r' a hr hseat hsilent hseat' => ?_, hb.serializedSize_le⟩
    · rw [hrounds]
      split_ifs
      · exact hround
      · exact hround.le
    · by_contra hres
      rw [if_neg hres] at hrounds
      exact hround.ne (hrounds.symm.trans hall)
    · exact hsilent (hh.returned r r' a hr hseat hseat')

/-- After a reopened round the one silent arbitrator is barred. -/
theorem dispute_bench_across_rounds_reopened :
    ((chainAfter (silentRound 100)).disputeCases.lookup 7).map
        (fun c => (c.resolved, c.round, c.barred)) = some (false, 1, [.wallet 30]) ∧
      ∃ r < 1, (r, .wallet 30) ∈ seatsTaken 7 (transitions (step recordedPlatform) emptyChain
          (silentRound 100)) ∧
        (r, .wallet 30) ∉ votesRevealed 7 (transitions (step recordedPlatform) emptyChain
          (silentRound 100)) := by
  have hcase : ((chainAfter (silentRound 100)).disputeCases.lookup
      7).map (fun c => (c.resolved, c.round, c.barred)) = some (false, 1, [.wallet 30]) := by
    decide +kernel
  refine ⟨hcase, ?_⟩
  obtain ⟨c, hc, hvalues⟩ := Option.map_eq_some_iff.mp hcase
  obtain ⟨hres, hvalues⟩ := Prod.mk.inj hvalues
  obtain ⟨hround, hbarred⟩ := Prod.mk.inj hvalues
  have h := dispute_bench_across_rounds recordedPlatform emptyChain genesis_emptyChain
    (silentRound 100) (by decide +kernel) 7 c hc
  obtain ⟨-, -, -, -, -, -, hiff, -⟩ := h
  rw [← hround]
  refine (hiff hres (.wallet 30)).mp ?_
  rw [hbarred]
  exact List.mem_singleton_self _

/-- A terminal split bars the silent seats of its round and keeps them on the bench. -/
theorem terminal_bench_not_disjoint :
    ¬ ∀ (P : Platform) (w₀ : World), Genesis w₀ → ∀ txs : List Instruction,
      (∀ t ∈ transitions (step P) w₀ txs, ClockForward t) → ∀ id c,
      (run (step P) w₀ txs).disputeCases.lookup id = some c →
      ∀ a ∈ c.arbitrators, a ∉ c.barred := by
  intro h
  have hcase : ((chainAfter (silentRound 1)).disputeCases.lookup
      7).map (fun c => (c.arbitrators, c.barred)) = some ([.wallet 30], [.wallet 30]) := by
    decide +kernel
  obtain ⟨c, hc, hvalues⟩ := Option.map_eq_some_iff.mp hcase
  obtain ⟨harbitrators, hbarred⟩ := Prod.mk.inj hvalues
  have hdisjoint := h recordedPlatform emptyChain genesis_emptyChain (silentRound 1)
    (by decide +kernel) 7 c hc (.wallet 30)
  rw [harbitrators, hbarred] at hdisjoint
  exact hdisjoint (List.mem_singleton_self _) (List.mem_singleton_self _)

end OpenFiat.DisputeBench
