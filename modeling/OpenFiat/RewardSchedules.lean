import OpenFiat.CheckedFolds
import OpenFiat.LivenessObservations
import OpenFiat.PeerDiscovery
import OpenFiat.ProportionalShares

/-!
# What every node is owed for an epoch

The emission of an epoch is divided among the observed nodes that are registered, hold enough stake
and share their stake account with nobody, in proportion to stake times quality of service. Shares
are rounded down and nodes whose share is nothing are left out; what rounding leaves is reported as
dust. The machine integers of the computation abort on overflow, which is the outcome `none`.
-/
namespace OpenFiat.RewardSchedules
open scoped BigOperators
open GuardedResult FiniteTable NodePayloads LivenessObservations ProportionalShares CheckedFolds
open FiniteTable.Table
open PeerDiscovery (peerId_bytes_injective)

structure Eligibility where
  effectiveStake : UInt64
  registered : Bool
  stakeAccount : String
deriving DecidableEq, Repr

structure RewardEntry where
  peer : PeerId
  amount : ℕ
  effectiveStake : UInt64
  connectivityBps : ℕ
  availabilityBps : ℕ
  pinningBps : ℕ
deriving DecidableEq, Repr

structure RewardSchedule where
  epoch : ℕ
  emission : ℕ
  entries : List RewardEntry
  dust : ℕ
deriving DecidableEq, Repr

def RewardSchedule.total (s : RewardSchedule) : ℕ := (s.entries.map RewardEntry.amount).sum

/-- What a peer receives. -/
def RewardSchedule.amountFor (s : RewardSchedule) (peer : PeerId) : ℕ :=
  ((s.entries.filter fun e => e.peer = peer).map RewardEntry.amount).sum

inductive InvalidParams where
  | zeroEpoch
  | zeroBuckets
  | multiplierAboveOne
deriving DecidableEq, Repr

def validate (P : RewardParams) : Except InvalidParams Unit := do
  require (P.epochMillis ≠ 0) .zeroEpoch
  require (P.availabilityBuckets ≠ 0) .zeroBuckets
  require (P.connectivityRpcBps ≤ bpsDenominator ∧ P.connectivityGossipBps ≤ bpsDenominator ∧
    P.pinningServingBps ≤ bpsDenominator ∧ P.pinningAbsentBps ≤ bpsDenominator) .multiplierAboveOne

/-- The result of an operation on machine integers. -/
def fit (bits n : ℕ) : Option ℕ := if n < 2 ^ bits then some n else none

section Peers
variable (P : RewardParams) (eligibility : Table PeerId Eligibility)

def availabilityBps (live : PeerLiveness) : Option ℕ := do
  let buckets := max P.availabilityBuckets.toNat 1
  let scaled ← fit 64 (min live.bucketsSeen.card buckets * bpsDenominator.toNat)
  return scaled / buckets

def connectivityBps (live : PeerLiveness) : ℕ :=
  (if live.announcedBlockhash then P.connectivityRpcBps else P.connectivityGossipBps).toNat

def pinningBps (live : PeerLiveness) : ℕ :=
  (if live.servedContent then P.pinningServingBps else P.pinningAbsentBps).toNat

def totalStake : ℕ := Table.total (fun _ el => el.effectiveStake.toNat) eligibility

/-- How many listed peers name a stake account. -/
def peersPerStake (account : String) : ℕ :=
  Table.total (fun _ el => if el.stakeAccount = account then 1 else 0) eligibility

def eligible (peer : PeerId) : Option Eligibility :=
  (eligibility.lookup peer).filter fun el =>
    el.registered ∧ P.minStake ≤ el.effectiveStake ∧
      peersPerStake eligibility el.stakeAccount ≤ 1

structure Weighted where
  peer : PeerId
  weight : ℕ
  effectiveStake : UInt64
  connectivityBps : ℕ
  availabilityBps : ℕ
  pinningBps : ℕ

/-- One round of the loop that weighs the observed peers. -/
def weigh (acc : List Weighted × ℕ) (o : PeerId × PeerLiveness) : Option (List Weighted × ℕ) :=
  match eligible P eligibility o.1 with
  | none => some acc
  | some el => do
    let connectivity := connectivityBps P o.2
    let availability ← availabilityBps P o.2
    let pinning := pinningBps P o.2
    -- The three multipliers meet before the stake does, in basis points again.
    let product ← fit 128 (connectivity * availability)
    let product ← fit 128 (product * pinning)
    let quality := product / (bpsDenominator.toNat * bpsDenominator.toNat)
    let weight ← fit 128 (el.effectiveStake.toNat * quality)
    if weight = 0 then return acc
    let total ← fit 128 (acc.2 + weight)
    return (acc.1 ++ [⟨o.1, weight, el.effectiveStake, connectivity, availability, pinning⟩], total)

end Peers

/-- One round of the loop that divides the emission. -/
def payOut (emission total : ℕ) (acc : List RewardEntry × ℕ) (w : Weighted) :
    Option (List RewardEntry × ℕ) := do
  let product ← fit 128 (emission * w.weight)
  let amount := product / total % 2 ^ 64
  if amount = 0 then return acc
  return (acc.1 ++ [⟨w.peer, amount, w.effectiveStake, w.connectivityBps, w.availabilityBps,
    w.pinningBps⟩], min (acc.2 + amount) (2 ^ 64 - 1))

def byPeer (entries : List RewardEntry) : List RewardEntry :=
  entries.insertionSort fun a b => a.peer.bytes.map UInt8.toNat ≤ b.peer.bytes.map UInt8.toNat

/-- The observed peers in the order of their ids. The source takes them as they come and sorts the
entries in the end. -/
def candidates (observed : Table PeerId PeerLiveness) : List (PeerId × PeerLiveness) :=
  observed.inOrder _ peerId_bytes_injective

def apportion (P : RewardParams) (observed : Table PeerId PeerLiveness)
    (eligibility : Table PeerId Eligibility) (epoch emission : ℕ) : Option RewardSchedule := do
  let (weights, totalWeight) ← (candidates observed).foldlM (weigh P eligibility) ([], 0)
  if totalWeight = 0 ∨ emission = 0 then return ⟨epoch, emission, [], emission⟩
  let (entries, assigned) ← weights.foldlM (payOut emission totalWeight) ([], 0)
  return ⟨epoch, emission, byPeer entries, emission - assigned⟩

/-- What there is to divide in an epoch. -/
def emissionFor (P : RewardParams) (bootstrapRemaining : UInt64) : ℕ :=
  min P.perEpochEmission.toNat bootstrapRemaining.toNat

def compute (P : RewardParams) (ledger : LivenessLedger) (eligibility : Table PeerId Eligibility)
    (epoch : ℕ) (bootstrapRemaining : UInt64) : Option (Except InvalidParams RewardSchedule) :=
  match validate P with
  | .error err => some (.error err)
  | .ok _ => (apportion P (ledger.epoch epoch) eligibility epoch
      (emissionFor P bootstrapRemaining)).map .ok

section Exact
variable (P : RewardParams) (eligibility : Table PeerId Eligibility)

def availability (live : PeerLiveness) : ℕ :=
  min live.bucketsSeen.card (max P.availabilityBuckets.toNat 1) * 10000 /
    max P.availabilityBuckets.toNat 1

def quality (live : PeerLiveness) : ℕ :=
  connectivityBps P live * availability P live * pinningBps P live / 100000000

/-- Stake times quality, and nothing for a peer that is not eligible. -/
def weight (peer : PeerId) (live : PeerLiveness) : ℕ :=
  (eligible P eligibility peer).elim 0 fun el => el.effectiveStake.toNat * quality P live

def weighted (o : PeerId × PeerLiveness) : Option Weighted :=
  (eligible P eligibility o.1).bind fun el =>
    if el.effectiveStake.toNat * quality P o.2 = 0 then none
    else some ⟨o.1, el.effectiveStake.toNat * quality P o.2, el.effectiveStake,
      connectivityBps P o.2, availability P o.2, pinningBps P o.2⟩

def entry (emission total : ℕ) (w : Weighted) : Option RewardEntry :=
  if emission * w.weight / total = 0 then none
  else some ⟨w.peer, emission * w.weight / total, w.effectiveStake, w.connectivityBps,
    w.availabilityBps, w.pinningBps⟩

variable (observed : Table PeerId PeerLiveness)

/-- The weight of a peer in an epoch. -/
def peerWeight (peer : PeerId) : ℕ :=
  Table.weight (weight P eligibility) peer (observed.lookup peer)

def weightedPeers : Finset PeerId :=
  observed.keys.filter fun peer => 0 < peerWeight P eligibility observed peer

/-- All that is paid out of an emission. -/
def assigned (emission : ℕ) : ℕ :=
  ∑ peer ∈ weightedPeers P eligibility observed, share emission (peerWeight P eligibility observed)
    (weightedPeers P eligibility observed) peer

variable {P eligibility observed} {live : PeerLiveness} {o : PeerId × PeerLiveness}

theorem multipliers_le (h : validate P = .ok ()) (live : PeerLiveness) :
    connectivityBps P live ≤ 10000 ∧ pinningBps P live ≤ 10000 := by
  simp only [validate, bind_ok, require_ok, exists_const] at h
  obtain ⟨-, -, hrpc, hgossip, hserving, habsent⟩ := h
  unfold connectivityBps pinningBps
  constructor
  · split_ifs
    · exact UInt64.le_iff_toNat_le.mp hrpc
    · exact UInt64.le_iff_toNat_le.mp hgossip
  · split_ifs
    · exact UInt64.le_iff_toNat_le.mp hserving
    · exact UInt64.le_iff_toNat_le.mp habsent

theorem availability_le (P : RewardParams) (live : PeerLiveness) : availability P live ≤ 10000 := by
  refine Nat.div_le_of_le_mul ?_
  exact Nat.mul_le_mul_right _ (min_le_right _ _)

theorem availabilityBps_eq (P : RewardParams) (live : PeerLiveness) :
    availabilityBps P live = some (availability P live) := by
  have hbuckets : max P.availabilityBuckets.toNat 1 ≤ 2 ^ 32 :=
    max_le P.availabilityBuckets.toNat_lt.le (by decide)
  have hfit : min live.bucketsSeen.card (max P.availabilityBuckets.toNat 1) *
      bpsDenominator.toNat < 2 ^ 64 :=
    calc _ ≤ 2 ^ 32 * 10000 := Nat.mul_le_mul_right _ ((min_le_right _ _).trans hbuckets)
      _ < 2 ^ 64 := by decide
  simp only [availabilityBps, fit, if_pos hfit]
  rfl

theorem factors_le (h : validate P = .ok ()) (live : PeerLiveness) :
    connectivityBps P live * availability P live ≤ 100000000 ∧
      connectivityBps P live * availability P live * pinningBps P live ≤ 1000000000000 := by
  obtain ⟨hconnectivity, hpinning⟩ := multipliers_le h live
  have hproduct := Nat.mul_le_mul hconnectivity (availability_le P live)
  exact ⟨hproduct, Nat.mul_le_mul hproduct hpinning⟩

theorem quality_le (h : validate P = .ok ()) (live : PeerLiveness) : quality P live ≤ 10000 :=
  Nat.div_le_of_le_mul (factors_le h live).2

theorem lookup_of_eligible {peer : PeerId} {el : Eligibility}
    (h : eligible P eligibility peer = some el) : eligibility.lookup peer = some el :=
  (Option.filter_eq_some_iff.mp h).1

section Loops
variable (h : validate P = .ok ())
  (hstakes : totalStake eligibility ≤ 10 ^ 17)
include h hstakes

theorem weigh_eq {acc : List Weighted × ℕ}
    (hroom : acc.2 + weight P eligibility o.1 o.2 < 2 ^ 128) :
    weigh P eligibility acc o = some (acc.1 ++ (weighted P eligibility o).toList,
      acc.2 + weight P eligibility o.1 o.2) := by
  unfold weigh weighted
  unfold weight at hroom ⊢
  cases hel : eligible P eligibility o.1 with
  | none => simp
  | some el =>
    rw [hel, Option.elim_some] at hroom
    obtain ⟨hfirst, hsecond⟩ := factors_le h o.2
    have hfirst' := hfirst.trans_lt (by decide : 100000000 < 2 ^ 128)
    have hsecond' := hsecond.trans_lt (by decide : 1000000000000 < 2 ^ 128)
    have hstake : el.effectiveStake.toNat ≤ totalStake eligibility :=
      le_total (fun _ el => el.effectiveStake.toNat) (lookup_of_eligible hel)
    have hweight := (Nat.mul_le_mul (hstake.trans hstakes) (quality_le h o.2)).trans_lt
      (by decide : 10 ^ 17 * 10000 < 2 ^ 128)
    have hquality : connectivityBps P o.2 * availability P o.2 * pinningBps P o.2 /
        (bpsDenominator.toNat * bpsDenominator.toNat) = quality P o.2 := rfl
    simp only [availabilityBps_eq, fit, Option.bind_eq_bind, Option.bind_some, if_pos hfirst',
      if_pos hsecond', hquality, if_pos hweight, if_pos hroom, Option.elim_some]
    by_cases hzero : el.effectiveStake.toNat * quality P o.2 = 0
    · simp [hzero]
    · rw [if_neg hzero, if_neg hzero]
      rfl

theorem totalWeight_le (observed : Table PeerId PeerLiveness) :
    Table.total (weight P eligibility) observed ≤ 10 ^ 21 := by
  have hpeer (peer : PeerId) (slot : Option PeerLiveness) :
      Table.weight (weight P eligibility) peer slot ≤
        Table.weight (fun _ el => el.effectiveStake.toNat) peer (eligibility.lookup peer) *
          10000 := by
    cases slot with
    | none => exact Nat.zero_le _
    | some live =>
      rw [weight_some, weight]
      cases hel : eligible P eligibility peer with
      | none => exact Nat.zero_le _
      | some =>
        rw [lookup_of_eligible hel, Option.elim_some]
        exact Nat.mul_le_mul_left _ (quality_le h live)
  calc Table.total (weight P eligibility) observed
      ≤ ∑ peer ∈ observed.keys ∪ eligibility.keys,
          Table.weight (fun _ el => el.effectiveStake.toNat) peer (eligibility.lookup peer) *
            10000 := by
        rw [Table.total_eq_sum _ _ Finset.subset_union_left]
        exact Finset.sum_le_sum fun peer _ => hpeer peer _
    _ = totalStake eligibility * 10000 := by
        rw [← Finset.sum_mul, ← total_eq_sum _ _ Finset.subset_union_right, totalStake]
    _ ≤ 10 ^ 17 * 10000 := Nat.mul_le_mul_right _ hstakes

end Loops

theorem payOut_eq {emission total : ℕ} {acc : List RewardEntry × ℕ} {w : Weighted}
    (hproduct : emission * w.weight < 2 ^ 128)
    (hroom : acc.2 + emission * w.weight / total < 2 ^ 64) :
    payOut emission total acc w = some (acc.1 ++ (entry emission total w).toList,
      acc.2 + emission * w.weight / total) := by
  have hamount : emission * w.weight / total < 2 ^ 64 := (Nat.le_add_left _ _).trans_lt hroom
  have hassigned : min (acc.2 + emission * w.weight / total) (2 ^ 64 - 1) =
      acc.2 + emission * w.weight / total := min_eq_left (Nat.le_sub_one_of_lt hroom)
  simp only [payOut, entry, fit, if_pos hproduct, Option.bind_eq_bind, Option.bind_some,
    Nat.mod_eq_of_lt hamount, hassigned]
  by_cases hzero : emission * w.weight / total = 0
  · simp [hzero]
  · rw [if_neg hzero, if_neg hzero]
    rfl

theorem weighted_cases (P : RewardParams) (eligibility : Table PeerId Eligibility)
    (o : PeerId × PeerLiveness) :
    (weighted P eligibility o = none ∧ weight P eligibility o.1 o.2 = 0) ∨
      ∃ w, weighted P eligibility o = some w ∧ w.peer = o.1 ∧
        w.weight = weight P eligibility o.1 o.2 := by
  unfold weighted weight
  cases eligible P eligibility o.1 with
  | none => exact .inl ⟨rfl, rfl⟩
  | some =>
    rw [Option.bind_some, Option.elim_some]
    split_ifs with hzero
    · exact .inl ⟨rfl, hzero⟩
    · exact .inr ⟨_, rfl, rfl, rfl⟩

theorem entry_cases (emission total : ℕ) (w : Weighted) :
    (entry emission total w = none ∧ emission * w.weight / total = 0) ∨
      ∃ e, entry emission total w = some e ∧ e.peer = w.peer ∧
        e.amount = emission * w.weight / total := by
  unfold entry
  split_ifs with hzero
  · exact .inl ⟨rfl, hzero⟩
  · exact .inr ⟨_, rfl, rfl, rfl⟩

/-- A sum over the weighted peers, where a peer without weight adds nothing. -/
theorem sum_weighted (l : List (PeerId × PeerLiveness)) {f : ℕ → ℕ} (hf : f 0 = 0) :
    ((l.filterMap (weighted P eligibility)).map fun w => f w.weight).sum =
      (l.map fun o => f (weight P eligibility o.1 o.2)).sum := by
  induction l with
  | nil => rfl
  | cons o l ih =>
    rw [List.map_cons, List.sum_cons, ← ih]
    rcases weighted_cases P eligibility o with ⟨hnone, hzero⟩ | ⟨w, hsome, -, hw⟩
    · rw [List.filterMap_cons_none hnone, hzero, hf, Nat.zero_add]
    · rw [List.filterMap_cons_some hsome, List.map_cons, List.sum_cons, hw]

/-- The amounts of the peers in a set are the rounded shares of these peers. -/
theorem sum_amounts (Q : PeerId → Prop) [DecidablePred Q] (emission total : ℕ)
    (l : List (PeerId × PeerLiveness)) :
    ((((l.filterMap (weighted P eligibility)).filterMap (entry emission total)).filter
      fun e => Q e.peer).map RewardEntry.amount).sum =
      (l.map fun o =>
        if Q o.1 then emission * weight P eligibility o.1 o.2 / total else 0).sum := by
  induction l with
  | nil => rfl
  | cons o l ih =>
    rw [List.map_cons, List.sum_cons, ← ih]
    rcases weighted_cases P eligibility o with ⟨hnone, hzero⟩ | ⟨w, hsome, hpeer, hw⟩
    · rw [List.filterMap_cons_none hnone, hzero, mul_zero, Nat.zero_div, ite_self, Nat.zero_add]
    rw [List.filterMap_cons_some hsome, ← hw, ← hpeer]
    rcases entry_cases emission total w with ⟨hnone, hzero⟩ | ⟨e, hentry, hpeer', hamount⟩
    · rw [List.filterMap_cons_none hnone, hzero, ite_self, Nat.zero_add]
    · rw [List.filterMap_cons_some hentry, ← hpeer', ← hamount, List.filter_cons]
      by_cases hQ : Q e.peer
      · rw [if_pos (decide_eq_true hQ), if_pos hQ, List.map_cons, List.sum_cons]
      · rw [if_neg (by simpa using hQ), if_neg hQ, Nat.zero_add]

variable {epoch emission : ℕ}

theorem sum_peerWeight : ∑ peer ∈ weightedPeers P eligibility observed,
    peerWeight P eligibility observed peer = Table.total (weight P eligibility) observed :=
  Finset.sum_filter_of_ne fun _ _ hne => Nat.pos_of_ne_zero hne

theorem peerWeight_pos {peer : PeerId} (h : peer ∈ weightedPeers P eligibility observed) :
    0 < peerWeight P eligibility observed peer :=
  (Finset.mem_filter.mp h).2

theorem weight_share (total : ℕ) (peer : PeerId) (slot : Option PeerLiveness) :
    Table.weight (fun peer live => emission * weight P eligibility peer live / total) peer slot =
      emission * Table.weight (weight P eligibility) peer slot / total := by
  cases slot with
  | none => rw [Table.weight_none, Table.weight_none, mul_zero, Nat.zero_div]
  | some => rfl

theorem sum_share : total (fun peer live => emission * weight P eligibility peer live /
      total (weight P eligibility) observed) observed =
    assigned P eligibility observed emission := by
  unfold assigned share
  rw [sum_peerWeight, Table.total]
  simp only [weight_share]
  refine (Finset.sum_filter_of_ne fun peer _ hne => Nat.pos_of_ne_zero fun hzero => hne ?_).symm
  change Table.weight (weight P eligibility) peer (observed.lookup peer) = 0 at hzero
  rw [hzero, mul_zero, Nat.zero_div]

theorem assigned_le : assigned P eligibility observed emission ≤ emission :=
  sum_share_le (fun _ => peerWeight_pos) (Finset.Subset.refl _)

theorem total_single {f : PeerId → PeerLiveness → ℕ} (peer : PeerId) :
    Table.total (fun p live => if p = peer then f p live else 0) observed =
      Table.weight f peer (observed.lookup peer) := by
  rw [Table.total_eq_sum _ _ (Finset.subset_insert peer _)]
  refine (Finset.sum_eq_single_of_mem peer (Finset.mem_insert_self _ _) fun p _ hne => ?_).trans ?_
  · cases observed.lookup p with
    | none => rfl
    | some => exact if_neg hne
  · cases observed.lookup peer with
    | none => rfl
    | some => exact if_pos rfl

theorem sum_candidates (f : PeerId → PeerLiveness → ℕ) (observed : Table PeerId PeerLiveness) :
    ((candidates observed).map fun o => f o.1 o.2).sum = total f observed :=
  sum_inOrder f observed

variable (P eligibility) in
theorem sum_byPeer (Q : PeerId → Prop) [DecidablePred Q] (emission total : ℕ)
    (observed : Table PeerId PeerLiveness) :
    (((byPeer (((candidates observed).filterMap (weighted P eligibility)).filterMap
      (entry emission total))).filter fun e => Q e.peer).map RewardEntry.amount).sum =
      Table.total (fun p live =>
        if Q p then emission * weight P eligibility p live / total else 0) observed := by
  have hsorted := List.perm_insertionSort
    (fun a b : RewardEntry => a.peer.bytes.map UInt8.toNat ≤ b.peer.bytes.map UInt8.toNat)
    (((candidates observed).filterMap (weighted P eligibility)).filterMap (entry emission total))
  rw [byPeer, ((hsorted.filter _).map _).sum_eq, sum_amounts]
  exact sum_candidates (fun p live =>
    if Q p then emission * weight P eligibility p live / total else 0) observed

/-- What the schedule of an epoch is, as a division of the emission. -/
structure Divides (s : RewardSchedule) (emission : ℕ) (weight : PeerId → ℕ)
    (holders : Finset PeerId) : Prop where
  emission_eq : s.emission = emission
  conserved : s.total + s.dust = emission
  dust_lt : holders.Nonempty → s.dust < holders.card
  dust_eq : holders = ∅ → s.dust = emission
  amountFor_eq : ∀ peer, s.amountFor peer = share emission weight holders peer

section Apportion
variable (h : validate P = .ok ()) (hstakes : totalStake eligibility ≤ 10 ^ 17)
  (hemission : emission ≤ 10 ^ 17)
include h hstakes hemission

theorem apportion_eq : apportion P observed eligibility epoch emission =
    some ⟨epoch, emission, byPeer (((candidates observed).filterMap
      (weighted P eligibility)).filterMap
        (entry emission (total (weight P eligibility) observed))),
      emission - assigned P eligibility observed emission⟩ := by
  have hsum : ((candidates observed).map fun o => weight P eligibility o.1 o.2).sum =
      total (weight P eligibility) observed := sum_candidates _ observed
  have htotal := totalWeight_le h hstakes observed
  have hroom : 0 + ((candidates observed).map fun o => weight P eligibility o.1 o.2).sum <
      2 ^ 128 := by
    rw [hsum, Nat.zero_add]
    exact htotal.trans_lt (by decide)
  have hweigh : (candidates observed).foldlM (weigh P eligibility) ([], 0) = _ :=
    foldlM_collect (fun _ _ _ => weigh_eq h hstakes) hroom
  rw [hsum, Nat.zero_add, List.nil_append] at hweigh
  have hassigned : (((candidates observed).filterMap (weighted P eligibility)).map fun w =>
      emission * w.weight / total (weight P eligibility) observed).sum =
      assigned P eligibility observed emission := by
    rw [sum_weighted (f := fun w => emission * w / total (weight P eligibility) observed) _
      (by rw [mul_zero, Nat.zero_div]), ← sum_share]
    exact sum_candidates (fun p live => emission * weight P eligibility p live /
      total (weight P eligibility) observed) observed
  rw [apportion, hweigh, Option.bind_eq_bind, Option.bind_some, ← hassigned]
  by_cases hnothing : total (weight P eligibility) observed = 0 ∨ emission = 0
  · -- No share is paid, and dividing would find none.
    have hshare (w : ℕ) :
        emission * w / total (weight P eligibility) observed = 0 := by
      rcases hnothing with hzero | hzero
      · rw [hzero, Nat.div_zero]
      · rw [hzero, Nat.zero_mul, Nat.zero_div]
    have hentry : entry emission (total (weight P eligibility) observed) =
        fun _ => none := funext fun w => if_pos (hshare w.weight)
    simp only [if_pos hnothing, hshare, hentry]
    simp [byPeer]
  · have hle : assigned P eligibility observed emission ≤ emission := assigned_le
    have hproduct : ∀ w ∈ (candidates observed).filterMap (weighted P eligibility),
        emission * w.weight < 2 ^ 128 := by
      intro w hw
      have hone : w.weight ≤ total (weight P eligibility) observed := by
        rw [← hsum, ← sum_weighted (f := fun w => w) _ rfl]
        exact List.le_sum_of_mem (List.mem_map_of_mem hw)
      exact (Nat.mul_le_mul hemission (hone.trans htotal)).trans_lt (by decide)
    rw [← hassigned] at hle
    simp only [if_neg hnothing]
    rw [foldlM_collect (fun _ w hw => payOut_eq (hproduct w hw)) (by
      rw [Nat.zero_add]
      exact (hle.trans hemission).trans_lt (by decide))]
    simp only [List.nil_append, Nat.zero_add]
    rfl

theorem apportion_divides (observed : Table PeerId PeerLiveness) (epoch : ℕ) :
    ∃ s, apportion P observed eligibility epoch emission = some s ∧
      Divides s emission (peerWeight P eligibility observed)
        (weightedPeers P eligibility observed) := by
  refine ⟨_, apportion_eq h hstakes hemission, rfl, ?_, ?_, ?_, fun peer => ?_⟩
  · have hall (total : ℕ) := sum_byPeer P eligibility (fun _ => True) emission total observed
    simp only [decide_true, List.filter_true, if_true] at hall
    rw [RewardSchedule.total, hall, sum_share, Nat.add_sub_cancel' assigned_le]
  · rintro ⟨peer, hpeer⟩
    exact ProportionalShares.dust_lt (fun _ => peerWeight_pos) hpeer
  · intro hempty
    simp [assigned, hempty]
  · refine (sum_byPeer P eligibility (fun p => p = peer) _ _ observed).trans ?_
    rw [total_single, weight_share, share, sum_peerWeight]
    rfl

end Apportion

variable {peer : PeerId}

theorem peersPerStake_erase {el : Eligibility} (hel : eligibility.lookup peer = some el)
    (account : String) : peersPerStake (eligibility.erase peer) account +
      (if el.stakeAccount = account then 1 else 0) = peersPerStake eligibility account := by
  have htotal := total_erase
    (fun _ (el : Eligibility) => if el.stakeAccount = account then 1 else 0) eligibility peer
  rwa [hel] at htotal

theorem one_le_peersPerStake {el : Eligibility} (hel : eligibility.lookup peer = some el) :
    1 ≤ peersPerStake eligibility el.stakeAccount := by
  have hle := le_total
    (fun _ (e : Eligibility) => if e.stakeAccount = el.stakeAccount then 1 else 0) hel
  rwa [if_pos rfl] at hle

/-- A peer that is not eligible can leave the list, unless its leaving ends the sharing of a stake
account. -/
theorem eligible_erase (hnone : eligible P eligibility peer = none)
    (hshared : ∀ el, eligibility.lookup peer = some el →
      peersPerStake eligibility el.stakeAccount ≠ 2) :
    eligible P (eligibility.erase peer) = eligible P eligibility := by
  cases hel : eligibility.lookup peer with
  | none => rw [erase_of_lookup hel]
  | some el =>
    funext q
    by_cases hq : q = peer
    · rw [hq, hnone, eligible, Finmap.lookup_erase]
      rfl
    rw [eligible, eligible, Finmap.lookup_erase_ne hq]
    cases helq : eligibility.lookup q with
    | none => rfl
    | some elq =>
      have hcount := peersPerStake_erase hel elq.stakeAccount
      have hiff : peersPerStake (eligibility.erase peer) elq.stakeAccount ≤ 1 ↔
          peersPerStake eligibility elq.stakeAccount ≤ 1 := by
        -- Where both name one account, at least three peers do.
        by_cases haccount : el.stakeAccount = elq.stakeAccount
        · have htwo := hshared el hel
          rw [haccount] at htwo
          rw [if_pos haccount] at hcount
          omega
        · rw [if_neg haccount] at hcount
          omega
      simp only [Option.filter_some, hiff]

theorem apportion_erase_observed (hnone : eligible P eligibility peer = none) :
    apportion P (observed.erase peer) eligibility epoch emission =
      apportion P observed eligibility epoch emission := by
  have hskip (acc : List Weighted × ℕ) (o : PeerId × PeerLiveness) : weigh P eligibility acc o =
      if decide (o.1 ≠ peer) = true then weigh P eligibility acc o else some acc := by
    by_cases ho : o.1 = peer
    · rw [if_neg (by simpa using ho), weigh, ho, hnone]
    · rw [if_pos (by simpa using ho)]
  rw [apportion, apportion, foldlM_eq_filter hskip (candidates observed)]
  unfold candidates
  rw [inOrder_erase]

/-- The quality figures of a peer. -/
def figures (P : RewardParams) (live : PeerLiveness) : ℕ × ℕ × ℕ :=
  (connectivityBps P live, availability P live, pinningBps P live)

theorem weight_le_stake {el : Eligibility} {live' : PeerLiveness}
    (hel : eligibility.lookup peer = some el) (hfigures : figures P live' = figures P live) :
    weight P eligibility peer live' ≤ el.effectiveStake.toNat * quality P live := by
  rw [weight]
  cases h : eligible P eligibility peer with
  | none => exact Nat.zero_le _
  | some =>
    rw [lookup_of_eligible h] at hel
    cases hel
    simp only [figures, Prod.mk.injEq] at hfigures
    rw [Option.elim_some, quality, quality, hfigures.1, hfigures.2.1, hfigures.2.2]

/-- A table in which two peers take the place of one. -/
def replacePeer {α : Type} (t : Table PeerId α) (peer p₁ p₂ : PeerId) (a₁ a₂ : α) :
    Table PeerId α :=
  ((t.erase peer).insert p₁ a₁).insert p₂ a₂

/-- An eligible peer is replaced by two others of the same quality that hold its stake, in accounts
that nobody else names. -/
structure Split (P : RewardParams) (observed : Table PeerId PeerLiveness)
    (eligibility : Table PeerId Eligibility) (peer p₁ p₂ : PeerId)
    (observed' : Table PeerId PeerLiveness) (eligibility' : Table PeerId Eligibility) where
  el : Eligibility
  el₁ : Eligibility
  el₂ : Eligibility
  live : PeerLiveness
  live₁ : PeerLiveness
  live₂ : PeerLiveness
  eligible_eq : eligible P eligibility peer = some el
  observed_eq : observed.lookup peer = some live
  replaced : observed' = replacePeer observed peer p₁ p₂ live₁ live₂ ∧
    eligibility' = replacePeer eligibility peer p₁ p₂ el₁ el₂
  distinct : p₁ ≠ p₂
  new₁ : (observed.erase peer).lookup p₁ = none ∧ (eligibility.erase peer).lookup p₁ = none
  new₂ : (observed.erase peer).lookup p₂ = none ∧ (eligibility.erase peer).lookup p₂ = none
  figures₁ : figures P live₁ = figures P live
  figures₂ : figures P live₂ = figures P live
  stakes : el₁.effectiveStake.toNat + el₂.effectiveStake.toNat = el.effectiveStake.toNat
  unshared : ∀ q elq, (eligibility.erase peer).lookup q = some elq →
    elq.stakeAccount ≠ el₁.stakeAccount ∧ elq.stakeAccount ≠ el₂.stakeAccount

theorem total_replacePeer {α : Type} (f : PeerId → α → ℕ) {t : Table PeerId α} {p₁ p₂ : PeerId}
    {a₁ a₂ : α} (hdistinct : p₁ ≠ p₂) (h₁ : (t.erase peer).lookup p₁ = none)
    (h₂ : (t.erase peer).lookup p₂ = none) : total f (replacePeer t peer p₁ p₂ a₁ a₂) =
      total f (t.erase peer) + (f p₁ a₁ + f p₂ a₂) := by
  have h₂' : ((t.erase peer).insert p₁ a₁).lookup p₂ = none := by
    rw [Finmap.lookup_insert_of_ne _ hdistinct.symm, h₂]
  rw [replacePeer, total_insert_new f a₂ h₂', total_insert_new f a₁ h₁, Nat.add_assoc]

theorem lookup_replacePeer {α : Type} (t : Table PeerId α) (peer : PeerId) {p₁ p₂ : PeerId}
    (a₁ a₂ : α) (hdistinct : p₁ ≠ p₂) : (replacePeer t peer p₁ p₂ a₁ a₂).lookup p₁ = some a₁ ∧
      (replacePeer t peer p₁ p₂ a₁ a₂).lookup p₂ = some a₂ := by
  rw [replacePeer, Finmap.lookup_insert_of_ne _ hdistinct, Finmap.lookup_insert,
    Finmap.lookup_insert]
  exact ⟨rfl, rfl⟩

namespace Split
variable {observed' : Table PeerId PeerLiveness} {eligibility' : Table PeerId Eligibility}
  {p₁ p₂ q : PeerId} (hs : Split P observed eligibility peer p₁ p₂ observed' eligibility')
include hs

theorem totalStake_eq : totalStake eligibility' = totalStake eligibility := by
  have hbefore := total_erase (fun _ (el : Eligibility) => el.effectiveStake.toNat)
    eligibility peer
  rw [lookup_of_eligible hs.eligible_eq, weight_some, ← hs.stakes] at hbefore
  rw [totalStake, hs.replaced.2, total_replacePeer _ hs.distinct hs.new₁.2 hs.new₂.2, hbefore,
    totalStake]

/-- The peers that stay are eligible as before. -/
theorem eligible_of_stays (hq : q ≠ peer) (h₁ : q ≠ p₁) (h₂ : q ≠ p₂) :
    eligible P eligibility' q = eligible P eligibility q := by
  have hlookup : eligibility'.lookup q = eligibility.lookup q := by
    rw [hs.replaced.2, replacePeer, Finmap.lookup_insert_of_ne _ h₂,
      Finmap.lookup_insert_of_ne _ h₁, Finmap.lookup_erase_ne hq]
  rw [eligible, eligible, hlookup]
  cases helq : eligibility.lookup q with
  | none => rfl
  | some elq =>
    have hstays : (eligibility.erase peer).lookup q = some elq := by
      rw [Finmap.lookup_erase_ne hq, helq]
    have hpeer := lookup_of_eligible hs.eligible_eq
    -- The peer that leaves was alone with its account.
    have hother : hs.el.stakeAccount ≠ elq.stakeAccount := by
      intro haccount
      have hcount := peersPerStake_erase hpeer elq.stakeAccount
      have hone := one_le_peersPerStake hstays
      have hsingle := (Option.filter_eq_some_iff.mp hs.eligible_eq).2
      simp only [decide_eq_true_eq, haccount] at hsingle
      rw [if_pos haccount] at hcount
      omega
    have hcount : peersPerStake eligibility' elq.stakeAccount =
        peersPerStake eligibility elq.stakeAccount := by
      obtain ⟨hne₁, hne₂⟩ := hs.unshared q elq hstays
      rw [← peersPerStake_erase hpeer, if_neg hother, peersPerStake, hs.replaced.2,
        total_replacePeer _ hs.distinct hs.new₁.2 hs.new₂.2, if_neg hne₁.symm, if_neg hne₂.symm]
      rfl
    simp only [Option.filter_some, hcount]

/-- The two parts weigh no more than the whole. -/
theorem weight_add_le : weight P eligibility' p₁ hs.live₁ + weight P eligibility' p₂ hs.live₂ ≤
    weight P eligibility peer hs.live := by
  obtain ⟨hlookup₁, hlookup₂⟩ := lookup_replacePeer eligibility peer hs.el₁ hs.el₂ hs.distinct
  rw [← hs.replaced.2] at hlookup₁ hlookup₂
  calc _ ≤ hs.el₁.effectiveStake.toNat * quality P hs.live +
          hs.el₂.effectiveStake.toNat * quality P hs.live :=
        Nat.add_le_add (weight_le_stake hlookup₁ hs.figures₁) (weight_le_stake hlookup₂ hs.figures₂)
    _ = weight P eligibility peer hs.live := by
        rw [← Nat.add_mul, hs.stakes, weight, hs.eligible_eq, Option.elim_some]

theorem total_weight : total (weight P eligibility') observed' =
    total (weight P eligibility) (observed.erase peer) +
      (weight P eligibility' p₁ hs.live₁ + weight P eligibility' p₂ hs.live₂) := by
  refine (congrArg (total _) hs.replaced.1).trans ?_
  rw [total_replacePeer _ hs.distinct hs.new₁.1 hs.new₂.1]
  refine congrArg (· + _) (total_congr fun q live' hq => ?_)
  have hq₁ : q ≠ p₁ := ne_of_lookup hq hs.new₁.1
  have hq₂ : q ≠ p₂ := ne_of_lookup hq hs.new₂.1
  have hqpeer : q ≠ peer := ne_of_lookup hq (Finmap.lookup_erase peer observed)
  rw [weight, weight, hs.eligible_of_stays hqpeer hq₁ hq₂]

theorem shares_le :
    share emission (peerWeight P eligibility' observed') (weightedPeers P eligibility' observed')
        p₁ +
      share emission (peerWeight P eligibility' observed') (weightedPeers P eligibility' observed')
        p₂ ≤
    share emission (peerWeight P eligibility observed) (weightedPeers P eligibility observed)
      peer := by
  obtain ⟨hlookup₁, hlookup₂⟩ := lookup_replacePeer observed peer hs.live₁ hs.live₂ hs.distinct
  rw [← hs.replaced.1] at hlookup₁ hlookup₂
  have hbefore := total_erase (weight P eligibility) observed peer
  simp only [share, sum_peerWeight, hs.total_weight, ← hbefore]
  rw [peerWeight, peerWeight, peerWeight, hlookup₁, hlookup₂, hs.observed_eq]
  exact split_share_le hs.weight_add_le

end Split

end Exact

/-- The ledger with other observations for one epoch. -/
def withEpoch (ledger : LivenessLedger) (epoch : ℕ) (observed : Table PeerId PeerLiveness) :
    LivenessLedger :=
  { epochs := ledger.epochs.insert epoch observed }

@[simp] theorem epoch_withEpoch (ledger : LivenessLedger) (epoch : ℕ)
    (observed : Table PeerId PeerLiveness) :
    (withEpoch ledger epoch observed).epoch epoch = observed := by
  rw [withEpoch, LivenessLedger.epoch, Finmap.lookup_insert, Option.getD_some]

theorem compute_eq {P : RewardParams} (h : validate P = .ok ()) (ledger : LivenessLedger)
    (eligibility : Table PeerId Eligibility) (epoch : ℕ) (remaining : UInt64) :
    compute P ledger eligibility epoch remaining =
      (apportion P (ledger.epoch epoch) eligibility epoch (emissionFor P remaining)).map .ok := by
  rw [compute, h]

/-- The schedule exists and divides the emission in proportion to weights. An ineligible peer can
be removed from the observations, and from the list unless it is one of exactly two peers that name
one stake account. A peer that is split into two with accounts of their own receives no more. -/
theorem schedule_exact (P : RewardParams) (ledger : LivenessLedger)
    (eligibility : Table PeerId Eligibility) (epoch : ℕ) (remaining : UInt64)
    (h : validate P = .ok ()) (hemission : emissionFor P remaining ≤ 10 ^ 17)
    (hstakes : totalStake eligibility ≤ 10 ^ 17) :
    ∃ s, compute P ledger eligibility epoch remaining = some (.ok s) ∧
      Divides s (emissionFor P remaining) (peerWeight P eligibility (ledger.epoch epoch))
        (weightedPeers P eligibility (ledger.epoch epoch)) ∧
      (∀ peer, eligible P eligibility peer = none →
        compute P (withEpoch ledger epoch ((ledger.epoch epoch).erase peer)) eligibility epoch
          remaining = some (.ok s) ∧
        ((∀ el, eligibility.lookup peer = some el →
            peersPerStake eligibility el.stakeAccount ≠ 2) →
          compute P ledger (eligibility.erase peer) epoch remaining = some (.ok s))) ∧
      ∀ peer p₁ p₂ observed' eligibility',
        Split P (ledger.epoch epoch) eligibility peer p₁ p₂ observed' eligibility' →
        ∃ s', compute P (withEpoch ledger epoch observed') eligibility' epoch remaining =
            some (.ok s') ∧ s'.amountFor p₁ + s'.amountFor p₂ ≤ s.amountFor peer := by
  obtain ⟨s, hs, hdivides⟩ := apportion_divides h hstakes hemission (ledger.epoch epoch) epoch
  refine ⟨s, by rw [compute_eq h, hs, Option.map_some], hdivides, fun peer hnone => ⟨?_, ?_⟩, ?_⟩
  · rw [compute_eq h, epoch_withEpoch, apportion_erase_observed hnone, hs, Option.map_some]
  · intro hshared
    have hweigh : weigh P (eligibility.erase peer) = weigh P eligibility := by
      funext acc o
      rw [weigh, weigh, eligible_erase hnone hshared]
    rw [compute_eq h, apportion, hweigh, ← apportion, hs, Option.map_some]
  · intro peer p₁ p₂ observed' eligibility' hsplit
    obtain ⟨s', hs', hdivides'⟩ := apportion_divides h (hsplit.totalStake_eq.trans_le hstakes)
      hemission observed' epoch
    refine ⟨s', by rw [compute_eq h, epoch_withEpoch, hs', Option.map_some], ?_⟩
    rw [hdivides'.amountFor_eq, hdivides'.amountFor_eq, hdivides.amountFor_eq]
    exact hsplit.shares_le

/-- The default parameters with a stake floor of one base unit. -/
def lowFloor : RewardParams := { RewardParams.default with minStake := 1 }

/-- A peer that was heard all day, bridges to the chain and serves content. -/
def fullService : PeerLiveness := ⟨Finset.range 24, true, true⟩

def peerA : PeerId := ⟨[1]⟩

def peerB : PeerId := ⟨[2]⟩

def peerC : PeerId := ⟨[3]⟩

/-- Both peers, heard all day in epoch 0. -/
def twoHeard : LivenessLedger :=
  withEpoch {} 0 (((∅ : Table PeerId PeerLiveness).insert peerA fullService).insert peerB
    fullService)

def list (a b : Eligibility) : Table PeerId Eligibility :=
  ((∅ : Table PeerId Eligibility).insert peerA a).insert peerB b

def paidTo (r : Option (Except InvalidParams RewardSchedule)) (peer : PeerId) : Option ℕ :=
  r.bind fun s => s.toOption.map fun s => s.amountFor peer

/-- Of one base unit, two equal peers are paid nothing and all of it is dust. A peer without stake
that names the account of another keeps that one from being paid until it is removed. A peer that
moves one unit of its stake to a second peer that names the account of a rival doubles its pay. -/
theorem schedule_surprises :
    compute lowFloor twoHeard (list ⟨100, true, "x"⟩ ⟨100, true, "y"⟩) 0 1 =
      some (.ok ⟨0, 1, [], 1⟩) ∧
    (eligible lowFloor (list ⟨100, true, "x"⟩ ⟨0, false, "x"⟩) peerB = none ∧
      paidTo (compute lowFloor twoHeard (list ⟨100, true, "x"⟩ ⟨0, false, "x"⟩) 0 100) peerA =
        some 0 ∧
      paidTo (compute lowFloor twoHeard ((list ⟨100, true, "x"⟩ ⟨0, false, "x"⟩).erase peerB) 0 100)
        peerA = some 100) ∧
    paidTo (compute lowFloor twoHeard (list ⟨100, true, "x"⟩ ⟨100, true, "y"⟩) 0 100) peerA =
      some 50 ∧
    paidTo (compute lowFloor
      (withEpoch twoHeard 0
        (replacePeer (twoHeard.epoch 0) peerA peerA peerC fullService fullService))
      (replacePeer (list ⟨100, true, "x"⟩ ⟨100, true, "y"⟩) peerA peerA peerC ⟨99, true, "x"⟩
        ⟨1, true, "y"⟩) 0 100) peerA = some 100 := by
  decide +kernel

/-- Two equal peers share an emission of one hundred and one, and one base unit is dust. -/
theorem schedule_exact_two :
    ∃ s, compute lowFloor twoHeard (list ⟨100, true, "x"⟩ ⟨100, true, "y"⟩) 0 101 = some (.ok s) ∧
      s.total + s.dust = 101 := by
  obtain ⟨s, hs, hdivides, -⟩ := schedule_exact lowFloor twoHeard
    (list ⟨100, true, "x"⟩ ⟨100, true, "y"⟩) 0 101 rfl (by decide) (by decide +kernel)
  exact ⟨s, hs, hdivides.conserved⟩

end OpenFiat.RewardSchedules
