import OpenFiat.ChainSteps

/-!
# The tally of a bench

`tallyLoop` walks the seats as the program does, adding each counted weight to one of four
totals and then looking for a unique largest entry; it agrees with `tally`. What the tally
means is said by `Decides`: enough seats count, and one outcome outweighs every other. Both
sides depend on the counted seats only, and not on their order. The weight recorded with a
verdict is a second sum over the bench, and equals the total that won.
-/
namespace OpenFiat.DisputeTally
open EscrowAccounts ChainWorld EscrowDisputes TransactionRuns

/-- What the tally reads of a seat: the revealed outcome and the weight. -/
abbrev Seat := Option DisputeOutcome × ℕ

def seats (c : DisputeCase) : List Seat := c.revealedOutcomes.zip c.weights

def Counts (s : Seat) : Prop := s.1.isSome = true ∧ 0 < s.2

instance (s : Seat) : Decidable (Counts s) := inferInstanceAs (Decidable (_ ∧ _))

def countedSeats (bench : List Seat) : ℕ := bench.countP fun s => Counts s

def positiveWeight (bench : List Seat) (o : DisputeOutcome) : ℕ :=
  ((bench.filter fun s => s.1 = some o ∧ 0 < s.2).map Prod.snd).sum

structure Decides (bench : List Seat) (o : DisputeOutcome) : Prop where
  quorum : minArbitrators ≤ countedSeats bench
  outweighs : ∀ o', o' ≠ o → positiveWeight bench o' < positiveWeight bench o

section
variable {bench bench' : List Seat} {o : DisputeOutcome} {c : DisputeCase}

theorem countedSeats_cons (s : Seat) :
    countedSeats (s :: bench) = countedSeats bench + if Counts s then 1 else 0 := by
  simp [countedSeats, List.countP_cons]

theorem positiveWeight_cons (s : Seat) :
    positiveWeight (s :: bench) o =
      (if s.1 = some o ∧ 0 < s.2 then s.2 else 0) + positiveWeight bench o := by
  simp only [positiveWeight, List.filter_cons, decide_eq_true_eq]
  split_ifs
  · rw [List.map_cons, List.sum_cons]
  · rw [zero_add]

theorem positiveWeight_filter (bench : List Seat) :
    positiveWeight (bench.filter fun s => Counts s) o = positiveWeight bench o := by
  rw [positiveWeight, List.filter_filter]
  congr 2
  refine List.filter_congr fun s _ => ?_
  rw [← Bool.decide_and, decide_eq_decide]
  refine and_iff_left_of_imp fun h => ⟨?_, h.2⟩
  rw [h.1]
  rfl

theorem positiveWeight_lt (hweights : ∀ s ∈ bench, s.2 < 2 ^ 64) (hlength : bench.length < 2 ^ 64) :
    positiveWeight bench o < 2 ^ 128 := by
  have hbound : positiveWeight bench o ≤ bench.length * (2 ^ 64 - 1) := by
    clear hlength
    induction bench with
    | nil => exact Nat.zero_le _
    | cons s bench ih =>
      have hrest := ih fun s hs => hweights s (List.mem_cons_of_mem _ hs)
      have hs := hweights s List.mem_cons_self
      rw [positiveWeight_cons, List.length_cons]
      split_ifs <;> omega
  have hproduct : bench.length * (2 ^ 64 - 1) ≤ (2 ^ 64 - 1) * (2 ^ 64 - 1) :=
    Nat.mul_le_mul_right _ (by omega)
  exact lt_of_le_of_lt (hbound.trans hproduct) (by decide)

def outcomeIndex : DisputeOutcome → Fin 4
  | .buyerWins => ⟨0, by decide⟩
  | .merchantWins => ⟨1, by decide⟩
  | .mutualSettlement => ⟨2, by decide⟩
  | .invalidDispute => ⟨3, by decide⟩

def outcomeAt : Fin 4 → DisputeOutcome
  | 0 => .buyerWins
  | 1 => .merchantWins
  | 2 => .mutualSettlement
  | _ => .invalidDispute

structure Totals where
  totals : Fin 4 → ℕ
  counted : ℕ

/-- A seat without weight is skipped before its vote is looked at. -/
def countSeat (t : Totals) (s : Seat) : Totals :=
  if s.2 = 0 then t
  else
    match s.1 with
    | none => t
    | some o =>
      ⟨Function.update t.totals (outcomeIndex o) (t.totals (outcomeIndex o) + s.2), t.counted + 1⟩

def tallyLoop (bench : List Seat) : Option DisputeOutcome × ℕ :=
  let t := bench.foldl countSeat ⟨fun _ => 0, 0⟩
  if t.counted < minArbitrators then (none, t.counted)
  else
    let heaviest := ((List.finRange 4).map t.totals).foldl max 0
    match (List.finRange 4).filter fun i => t.totals i = heaviest with
    | [i] => (some (outcomeAt i), t.counted)
    | _ => (none, t.counted)

theorem outcomeIndex_eq_iff {i : Fin 4} : outcomeIndex o = i ↔ o = outcomeAt i := by
  constructor
  · rintro rfl
    cases o <;> rfl
  · rintro rfl
    revert i
    decide

theorem countSeat_totals (t : Totals) (s : Seat) (i : Fin 4) :
    (countSeat t s).totals i =
      t.totals i + if s.1 = some (outcomeAt i) ∧ 0 < s.2 then s.2 else 0 := by
  obtain ⟨vote, n⟩ := s
  unfold countSeat
  by_cases hn : n = 0
  · rw [if_pos hn, if_neg fun h => h.2.ne' hn, add_zero]
  · rw [if_neg hn]
    cases vote with
    | none => rw [if_neg fun h => (by cases h.1), add_zero]
    | some o =>
      by_cases hi : o = outcomeAt i
      · have hindex := outcomeIndex_eq_iff.mpr hi
        rw [if_pos ⟨congrArg some hi, Nat.pos_of_ne_zero hn⟩, ← hindex]
        exact Function.update_self ..
      · have hindex : i ≠ outcomeIndex o := fun h => hi (outcomeIndex_eq_iff.mp h.symm)
        rw [if_neg fun h => hi (Option.some.inj h.1)]
        exact Function.update_of_ne hindex ..

theorem countSeat_counted (t : Totals) (s : Seat) :
    (countSeat t s).counted = t.counted + if Counts s then 1 else 0 := by
  obtain ⟨vote, n⟩ := s
  unfold countSeat
  by_cases hn : n = 0
  · rw [if_pos hn, if_neg fun h => h.2.ne' hn, add_zero]
  · rw [if_neg hn]
    cases vote with
    | none => rw [if_neg fun h => (by cases h.1), add_zero]
    | some => rw [if_pos ⟨rfl, Nat.pos_of_ne_zero hn⟩]

/-- The loop adds the weights of the seats that it passes. -/
theorem foldl_countSeat (bench : List Seat) (t : Totals) :
    (∀ i, (bench.foldl countSeat t).totals i =
      t.totals i + positiveWeight bench (outcomeAt i)) ∧
    (bench.foldl countSeat t).counted = t.counted + countedSeats bench := by
  induction bench generalizing t with
  | nil => exact ⟨fun i => rfl, rfl⟩
  | cons s bench ih =>
    obtain ⟨htotals, hcounted⟩ := ih (countSeat t s)
    refine ⟨fun i => ?_, ?_⟩
    · rw [List.foldl_cons, htotals, countSeat_totals, positiveWeight_cons, add_assoc]
    · rw [List.foldl_cons, hcounted, countSeat_counted, countedSeats_cons, add_assoc,
        add_comm (countedSeats bench)]

def voteOf (s : Seat) : Option (DisputeOutcome × ℕ) :=
  if s.2 = 0 then none else s.1.map fun o => (o, s.2)

theorem countedVotes_eq (c : DisputeCase) : countedVotes c = (seats c).filterMap voteOf := rfl

theorem voteOf_counted {n : ℕ} (h : Counts (some o, n)) : voteOf (some o, n) = some (o, n) :=
  if_neg h.2.ne'

theorem voteOf_skipped {s : Seat} (h : ¬ Counts s) : voteOf s = none := by
  obtain ⟨vote, n⟩ := s
  unfold voteOf
  split_ifs with hn
  · rfl
  · cases vote with
    | none => rfl
    | some => exact absurd ⟨rfl, Nat.pos_of_ne_zero hn⟩ h

theorem length_countedVotes : (countedVotes c).length = countedSeats (seats c) := by
  rw [countedVotes_eq]
  induction seats c with
  | nil => rfl
  | cons s bench ih =>
    obtain ⟨vote, n⟩ := s
    rw [countedSeats_cons, ← ih]
    by_cases hcounts : Counts (vote, n)
    · obtain ⟨o, rfl⟩ := Option.isSome_iff_exists.mp hcounts.1
      rw [List.filterMap_cons_some (voteOf_counted hcounts), List.length_cons, if_pos hcounts]
    · rw [List.filterMap_cons_none (voteOf_skipped hcounts), if_neg hcounts, add_zero]

theorem outcomeTotal_eq : outcomeTotal c o = positiveWeight (seats c) o := by
  rw [outcomeTotal, countedVotes_eq]
  induction seats c with
  | nil => rfl
  | cons s bench ih =>
    obtain ⟨vote, n⟩ := s
    rw [positiveWeight_cons, ← ih]
    by_cases hcounts : Counts (vote, n)
    · obtain ⟨o', rfl⟩ := Option.isSome_iff_exists.mp hcounts.1
      rw [List.filterMap_cons_some (voteOf_counted hcounts), List.filter_cons]
      by_cases ho : o' = o
      · rw [if_pos (decide_eq_true ho), if_pos ⟨congrArg some ho, hcounts.2⟩, List.map_cons,
          List.sum_cons]
      · rw [if_neg fun h => ho (of_decide_eq_true h), if_neg fun h => ho (Option.some.inj h.1),
          zero_add]
    · have hother : ¬ ((vote, n).1 = some o ∧ 0 < n) := by
        rintro ⟨rfl, hn⟩
        exact hcounts ⟨rfl, hn⟩
      rw [List.filterMap_cons_none (voteOf_skipped hcounts), if_neg hother, zero_add]

theorem weightBehind_eq : weightBehind c o = positiveWeight (seats c) o := by
  change (((seats c).filter fun s => s.1 = some o).map Prod.snd).sum = _
  induction seats c with
  | nil => rfl
  | cons s bench ih =>
    rw [positiveWeight_cons, ← ih, List.filter_cons]
    by_cases ho : s.1 = some o
    · rw [if_pos (decide_eq_true ho), List.map_cons, List.sum_cons]
      by_cases hn : 0 < s.2
      · rw [if_pos ⟨ho, hn⟩]
      · rw [if_neg fun h => hn h.2, Nat.eq_zero_of_not_pos hn]
    · rw [if_neg fun h => ho (of_decide_eq_true h), if_neg fun h => ho h.1, zero_add]

def sole {α : Type} : List α → Option α
  | [a] => some a
  | _ => none

theorem sole_eq_some {α : Type} {l : List α} {a : α} : sole l = some a ↔ l = [a] := by
  rcases l with _ | ⟨b, _ | ⟨b', l⟩⟩
  · exact ⟨fun h => (by cases h), fun h => by cases h⟩
  · exact ⟨fun h => Option.some.inj h ▸ rfl, fun h => congrArg some (List.cons.inj h).1⟩
  · exact ⟨fun h => (by cases h), fun h => by cases h⟩

theorem sole_map {α β : Type} (f : α → β) (l : List α) : sole (l.map f) = (sole l).map f := by
  rcases l with _ | ⟨b, _ | ⟨b', l⟩⟩ <;> rfl

def heaviestOf (total : DisputeOutcome → ℕ) : Option DisputeOutcome :=
  sole (disputeOutcomes.filter fun o => total o = (disputeOutcomes.map total).foldl max 0)

theorem tally_eq (c : DisputeCase) : tally c =
    (if countedSeats (seats c) < minArbitrators then none
      else heaviestOf (positiveWeight (seats c)), countedSeats (seats c)) := by
  have htotal : outcomeTotal c = positiveWeight (seats c) := funext fun o => outcomeTotal_eq
  unfold tally heaviestOf
  rw [length_countedVotes, htotal]
  dsimp only
  split_ifs
  · rfl
  · generalize disputeOutcomes.filter _ = winners
    rcases winners with _ | ⟨o, _ | ⟨o', winners⟩⟩ <;> rfl

theorem tallyLoop_eq (bench : List Seat) : tallyLoop bench =
    (if countedSeats bench < minArbitrators then none
      else heaviestOf (positiveWeight bench), countedSeats bench) := by
  obtain ⟨htotals, hcounted⟩ := foldl_countSeat bench ⟨fun _ => 0, 0⟩
  simp only [zero_add] at htotals hcounted
  have hloop : (bench.foldl countSeat ⟨fun _ => 0, 0⟩).totals = positiveWeight bench ∘ outcomeAt :=
    funext htotals
  have houtcomes : disputeOutcomes = (List.finRange 4).map outcomeAt := by decide
  unfold tallyLoop heaviestOf
  dsimp only
  rw [hcounted, hloop, houtcomes, List.filter_map, sole_map]
  split_ifs
  · rfl
  · change _ = (Option.map outcomeAt (sole ((List.finRange 4).filter fun i =>
      (positiveWeight bench ∘ outcomeAt) i =
        ((List.finRange 4).map (positiveWeight bench ∘ outcomeAt)).foldl max 0)), _)
    generalize (List.finRange 4).filter _ = winners
    rcases winners with _ | ⟨i, _ | ⟨j, winners⟩⟩ <;> rfl

theorem tally_eq_tallyLoop (c : DisputeCase) : tally c = tallyLoop (seats c) :=
  (tally_eq c).trans (tallyLoop_eq (seats c)).symm

theorem mem_disputeOutcomes (o : DisputeOutcome) : o ∈ disputeOutcomes := by
  cases o <;> decide

theorem le_heaviest (total : DisputeOutcome → ℕ) (o : DisputeOutcome) :
    total o ≤ (disputeOutcomes.map total).foldl max 0 := by
  cases o <;> simp [disputeOutcomes]

theorem exists_heaviest (total : DisputeOutcome → ℕ) :
    ∃ o, total o = (disputeOutcomes.map total).foldl max 0 := by
  by_contra hnone
  have hbelow (o : DisputeOutcome) : total o ≠ (disputeOutcomes.map total).foldl max 0 :=
    fun h => hnone ⟨o, h⟩
  have hbuyer := hbelow .buyerWins
  have hmerchant := hbelow .merchantWins
  have hmutual := hbelow .mutualSettlement
  have hinvalid := hbelow .invalidDispute
  simp only [disputeOutcomes, List.map_cons, List.map_nil, List.foldl_cons, List.foldl_nil] at *
  omega

theorem heaviestOf_eq_some {total : DisputeOutcome → ℕ} :
    heaviestOf total = some o ↔ ∀ o', o' ≠ o → total o' < total o := by
  have hmem (o : DisputeOutcome) : o ∈ disputeOutcomes.filter (fun o =>
      total o = (disputeOutcomes.map total).foldl max 0) ↔
      total o = (disputeOutcomes.map total).foldl max 0 := by
    rw [List.mem_filter, decide_eq_true_eq]
    exact and_iff_right (mem_disputeOutcomes o)
  rw [heaviestOf, sole_eq_some]
  constructor
  · intro honly o' hne
    have ho := (hmem o).mp (honly ▸ List.mem_singleton_self o)
    refine lt_of_le_of_ne (ho ▸ le_heaviest total o') fun heq => hne ?_
    have ho' := (hmem o').mpr (heq.trans ho)
    rw [honly] at ho'
    exact List.mem_singleton.mp ho'
  · intro hlt
    obtain ⟨o₁, ho₁⟩ := exists_heaviest total
    obtain rfl : o₁ = o := by
      by_contra hne
      exact absurd (hlt o₁ hne) (Nat.not_lt.mpr (ho₁ ▸ le_heaviest total o))
    have hnodup : disputeOutcomes.Nodup := by decide
    refine List.perm_singleton.mp ((List.perm_ext_iff_of_nodup (hnodup.filter _)
      (List.nodup_singleton _)).mpr fun o' => ?_)
    rw [hmem, List.mem_singleton]
    refine ⟨fun ho' => ?_, fun ho' => ho' ▸ ho₁⟩
    by_contra hne
    exact absurd (ho'.trans ho₁.symm) (hlt o' hne).ne

theorem tally_eq_some_iff : (tally c).1 = some o ↔ Decides (seats c) o := by
  rw [tally_eq]
  split_ifs with hfew
  · exact ⟨fun h => (by cases h), fun h => absurd h.quorum (Nat.not_le.mpr hfew)⟩
  · rw [heaviestOf_eq_some]
    exact ⟨fun h => ⟨Nat.le_of_not_lt hfew, h⟩, fun h => h.outweighs⟩

/-- The tally sees the counted seats only, and not their order. -/
theorem tally_eq_of_perm {c' : DisputeCase}
    (h : ((seats c).filter fun s => Counts s).Perm ((seats c').filter fun s => Counts s)) :
    tally c = tally c' := by
  have hweight : positiveWeight (seats c) = positiveWeight (seats c') := by
    funext o
    rw [← positiveWeight_filter, ← positiveWeight_filter (seats c')]
    exact ((h.filter _).map _).sum_eq
  rw [tally_eq, tally_eq, countedSeats, countedSeats, List.countP_eq_length_filter,
    List.countP_eq_length_filter, h.length_eq, hweight]

end

/-- The tally names an outcome exactly if the bench decides it, and reports the number of
counted seats in any case. Neither the order of the seats nor a seat that does not count
matters. A verdict is recorded with the exact sum of the positive weights behind it. -/
theorem tally_correct (c : DisputeCase) :
    tally c = tallyLoop (seats c) ∧ (tally c).2 = countedSeats (seats c) ∧
    (∀ o, (tally c).1 = some o ↔ minArbitrators ≤ countedSeats (seats c) ∧
      ∀ o', o' ≠ o → positiveWeight (seats c) o' < positiveWeight (seats c) o) ∧
    (∀ c', (seats c).Perm (seats c') → tally c' = tally c) ∧
    (∀ c' pre s post, seats c = pre ++ post → s.1 = none ∨ s.2 = 0 →
      seats c' = pre ++ s :: post → tally c' = tally c) ∧
    ((∀ s ∈ seats c, s.2 < 2 ^ 64) → (seats c).length < 2 ^ 64 →
      ∀ o, positiveWeight (seats c) o < 2 ^ 128) ∧
    ∀ (P : ProgramAddress.Platform) (w w' : World) (a : ExecuteAccounts) (o : DisputeOutcome),
      w.disputeCases.lookup a.caseId = some c → executeDisputeOutcome P w a = .ok w' →
      (tally c).1 = some o → ∃ c', w'.disputeCases.lookup a.caseId = some c' ∧
        c'.outcome = some o ∧ c'.winningWeight = positiveWeight (seats c) o ∧
        c'.winningWeight < 2 ^ 64 := by
  refine ⟨tally_eq_tallyLoop c, congrArg Prod.snd (tally_eq c), fun o => ?_, fun c' hperm => ?_,
    fun c' pre s post hseats hidle hseats' => ?_, fun hweights hlength o => ?_,
    fun P w w' a o hc hexecute htally => ?_⟩
  · rw [tally_eq_some_iff]
    exact ⟨fun h => ⟨h.quorum, h.outweighs⟩, fun h => ⟨h.1, h.2⟩⟩
  · exact (tally_eq_of_perm (hperm.filter _)).symm
  · have hcounts : ¬ Counts s := by
      rintro ⟨hvote, hweight⟩
      rcases hidle with hnone | hzero
      · rw [hnone] at hvote
        cases hvote
      · exact hweight.ne' hzero
    refine tally_eq_of_perm ?_
    rw [hseats, hseats', List.filter_append, List.filter_append,
      List.filter_cons_of_neg (by simpa using hcounts)]
  · exact positiveWeight_lt hweights hlength
  · obtain ⟨c₀, e, v, ov, fees, d, hc₀, -, -, -, -, -, -, -, -, -, -, -, -, -, hround, rfl⟩ :=
      executeDisputeOutcome_ok hexecute
    obtain rfl := Option.mem_unique hc hc₀
    cases hround with
    | decided hdecided hweight =>
      obtain rfl := Option.mem_unique hdecided htally
      exact ⟨_, Finmap.lookup_insert _, rfl, weightBehind_eq, hweight⟩
    | reopened hnone | terminal hnone =>
      rw [htally] at hnone
      cases hnone

def votedBench : World :=
  run (ChainSteps.step ChainSteps.recordedPlatform) ChainSteps.emptyChain
    (ChainSteps.buyerVerdict [30, 31, 32]).dropLast

def caseSevenAccounts : ExecuteAccounts :=
  ⟨.fixed .mockUsdc, 7, 7, .wallet 20, .wallet 1, .wallet 50, some .arbitrationPolicy⟩

theorem tally_correct_votedBench : ∃ c w' c', votedBench.disputeCases.lookup 7 = some c ∧
    executeDisputeOutcome ChainSteps.recordedPlatform votedBench caseSevenAccounts = .ok w' ∧
    (tally c).1 = some .buyerWins ∧ positiveWeight (seats c) .buyerWins = 3 ∧
    w'.disputeCases.lookup 7 = some c' ∧ c'.outcome = some .buyerWins ∧ c'.winningWeight = 3 := by
  have hvoted : (votedBench.disputeCases.lookup 7).map
      (fun c => ((tally c).1, positiveWeight (seats c) .buyerWins)) =
        some (some .buyerWins, 3) := by
    decide +kernel
  obtain ⟨c, hc, hvotes⟩ := Option.map_eq_some_iff.mp hvoted
  obtain ⟨htally, hweight⟩ := Prod.mk.inj hvotes
  have hok : (executeDisputeOutcome ChainSteps.recordedPlatform votedBench
      caseSevenAccounts).isOk = true := by
    decide +kernel
  cases hexecute : executeDisputeOutcome ChainSteps.recordedPlatform votedBench
    caseSevenAccounts with
  | error e =>
    rw [hexecute] at hok
    cases hok
  | ok w' =>
    obtain ⟨-, -, -, -, -, -, hrecords⟩ := tally_correct c
    obtain ⟨c', hc', houtcome, hwinning, -⟩ := hrecords ChainSteps.recordedPlatform votedBench w'
      caseSevenAccounts .buyerWins hc hexecute htally
    exact ⟨c, w', c', hc, rfl, htally, hweight, hc', houtcome, hwinning.trans hweight⟩

end OpenFiat.DisputeTally
