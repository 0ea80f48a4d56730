import OpenFiat.CounterpartyHistory
import OpenFiat.GovernanceRegistry
import OpenFiat.SettlementReplay
import OpenFiat.TradeChannels

/-!
# Arithmetic on gossiped fields

Proposals, votes, channel entries and settlement actions carry times, weights and sequence numbers
that their author chose and that nothing bounds. They are stored by one event and added up by
another call, in 64 bits and with overflow checks: a sum that does not fit ends the process. What
keeps a node alive is that the fields it was sent are moderate.
-/
namespace OpenFiat.PayloadArithmetic
open CheckedFolds FiniteTable GuardedResult NodePayloads RecordStores TradingNode TransactionRuns
open GovernanceRegistry CounterpartyHistory
open GovernanceRegistry (CastVote GovernanceStatement Proposal ProposalCreate ProposalId Registry
  VoteCast VoteChoice defaultVotingPeriod newProposal)
open NodeSteps (Change signedFor)
open SettlementReplay (IsSettlementPayload)
open TradeChannels (ChannelEntry ChannelStatement Channels Delivery TradeChannel)

structure Tally where
  approve : ℕ
  reject : ℕ
  abstain : ℕ
deriving DecidableEq

def Tally.weight (t : Tally) : VoteChoice → ℕ
  | .approve => t.approve
  | .reject => t.reject
  | .abstain => t.abstain

def Tally.add (t : Tally) (vote : CastVote) : Tally :=
  match vote.choice with
  | .approve => { t with approve := t.approve + vote.weight }
  | .reject => { t with reject := t.reject + vote.weight }
  | .abstain => { t with abstain := t.abstain + vote.weight }

def Tally.Fits (t : Tally) : Prop := t.approve < 2 ^ 64 ∧ t.reject < 2 ^ 64 ∧ t.abstain < 2 ^ 64

instance (t : Tally) : Decidable t.Fits := inferInstanceAs (Decidable (_ ∧ _))

structure VotePreview where
  votersSeen : ℕ
  approveWeight : ℕ
  rejectWeight : ℕ
  abstainWeight : ℕ
  votingClosed : Bool
deriving DecidableEq

/-- The outer `none` is an overflow, the inner one an unknown proposal. -/
def localVotePreview (r : Registry) (id : ProposalId) (now : Timestamp) :
    Option (Option VotePreview) :=
  match r.get id with
  | none => some none
  | some p => (p.votes.foldlM (checked Tally.Fits Tally.add) ⟨0, 0, 0⟩).map fun t =>
    some ⟨p.votes.length, t.approve, t.reject, t.abstain, p.votingClosesAt ≤ now⟩

/-- What was cast for one choice. -/
def weightOf (votes : List CastVote) (choice : VoteChoice) : ℕ :=
  ((votes.filter (·.choice = choice)).map (·.weight)).sum

theorem weight_foldl_add (votes : List CastVote) (t : Tally) (choice : VoteChoice) :
    (votes.foldl Tally.add t).weight choice = t.weight choice + weightOf votes choice := by
  induction votes generalizing t with
  | nil => rfl
  | cons vote votes ih =>
    rw [List.foldl_cons, ih]
    cases hvote : vote.choice <;> cases choice <;>
      simp [Tally.add, Tally.weight, weightOf, hvote, Nat.add_assoc]

theorem Tally.fits_iff {t : Tally} : t.Fits ↔ ∀ choice, t.weight choice < 2 ^ 64 := by
  constructor
  · rintro ⟨happrove, hreject, habstain⟩ choice
    cases choice <;> assumption
  · exact fun h => ⟨h .approve, h .reject, h .abstain⟩

theorem Tally.fits_of_add {t : Tally} {vote : CastVote} (h : (t.add vote).Fits) : t.Fits := by
  simp only [Tally.add] at h
  unfold Tally.Fits at h ⊢
  split at h <;> simp only at h <;> omega

theorem localVotePreview_returns {r : Registry} {id : ProposalId}
    (h : ∀ p, r.get id = some p → ∀ choice, weightOf p.votes choice < 2 ^ 64) (now : Timestamp) :
    ∃ preview, localVotePreview r id now = some preview := by
  unfold localVotePreview
  cases hget : r.get id with
  | none => exact ⟨none, rfl⟩
  | some p =>
    have hfits : (p.votes.foldl Tally.add ⟨0, 0, 0⟩).Fits := by
      refine Tally.fits_iff.mpr fun choice => ?_
      rw [weight_foldl_add]
      have hweight := h p hget choice
      cases choice <;> simpa [Tally.weight] using hweight
    simp only [foldlM_checked (fun _ _ => Tally.fits_of_add) (by decide : Tally.Fits ⟨0, 0, 0⟩),
      if_pos hfits]
    exact ⟨_, rfl⟩

def nextSequence (channel : TradeChannel) (author : PeerId) : Option ℕ :=
  (channel.entries.filter (·.author = author)).foldlM (fun highest entry =>
    if entry.sequence.toNat + 1 < 2 ^ 64 then some (max highest (entry.sequence.toNat + 1))
    else none) 0

theorem nextSequence_returns {channel : TradeChannel}
    (h : ∀ entry ∈ channel.entries, entry.sequence.toNat + 1 < 2 ^ 64) (author : PeerId) :
    ∃ n, nextSequence channel author = some n := by
  have hfold (l : List ChannelEntry) (hl : ∀ entry ∈ l, entry.sequence.toNat + 1 < 2 ^ 64) (m : ℕ) :
      ∃ n, l.foldlM (fun highest entry => if entry.sequence.toNat + 1 < 2 ^ 64 then
        some (max highest (entry.sequence.toNat + 1)) else none) m = some n := by
    induction l generalizing m with
    | nil => exact ⟨m, rfl⟩
    | cons entry l ih =>
      rw [List.foldlM_cons, if_pos (hl entry List.mem_cons_self)]
      exact ih (fun e he => hl e (List.mem_cons_of_mem _ he)) _
  exact hfold _ (fun entry hentry => h entry (List.mem_filter.mp hentry).1) 0

structure ReputationProfile where
  wallet : PeerId
  tradesStarted : ℕ
  tradesCompleted : ℕ
  tradesCancelled : ℕ
  disputesInvolved : ℕ
  disputesLost : ℕ
  reservationsMissed : ℕ
  paymentResponsesDue : ℕ
  paymentResponsesMade : ℕ
  paymentsSubmitted : ℕ
  paymentDiscrepancies : ℕ
  responseLatencySumMs : ℕ
  completedDurationSumMs : ℕ
  totalVolume : List Amount
  firstActiveAt : Option Timestamp

namespace ReputationProfile

def empty (wallet : PeerId) : ReputationProfile :=
  ⟨wallet, 0, 0, 0, 0, 0, 0, 0, 0, 0, 0, 0, 0, [], none⟩

/-- The fields of 64 bits that are added to. -/
def counters : List (ReputationProfile → ℕ) :=
  [tradesStarted, tradesCompleted, tradesCancelled, disputesInvolved, disputesLost,
    reservationsMissed, paymentResponsesDue, paymentResponsesMade, paymentsSubmitted,
    paymentDiscrepancies, responseLatencySumMs, completedDurationSumMs]

def Fits (p : ReputationProfile) : Prop := ∀ counter ∈ counters, counter p < 2 ^ 64

instance (p : ReputationProfile) : Decidable p.Fits :=
  inferInstanceAs (Decidable (∀ counter ∈ counters, _))

section Additions
variable (p : ReputationProfile)

def observeActivityAt (time : Timestamp) : ReputationProfile :=
  { p with firstActiveAt := some (p.firstActiveAt.elim time (min · time)) }

/-- A volume that overflows its bucket is left as it is. -/
def addVolume (amount : Amount) : List Amount → List Amount
  | [] => [amount]
  | existing :: rest =>
    if existing.decimals = amount.decimals then (existing.checkedAdd amount).getD existing :: rest
    else existing :: addVolume amount rest

def recordVolume (amount : Amount) : ReputationProfile :=
  { p with totalVolume := addVolume amount p.totalVolume }

def recordPaymentResponse (latency : ℕ) : ReputationProfile :=
  { p with
    paymentResponsesDue := p.paymentResponsesDue + 1
    paymentResponsesMade := p.paymentResponsesMade + 1
    responseLatencySumMs := p.responseLatencySumMs + latency }

def recordPaymentResponseOutstanding : ReputationProfile :=
  { p with paymentResponsesDue := p.paymentResponsesDue + 1 }

/-- The merchant is judged on the answer to a payment declaration. -/
def addResponse (s : Settlement) : ReputationProfile :=
  if s.seller = p.wallet then match s.paymentSubmittedAt, s.merchantRespondedAt with
    | some submitted, some responded => p.recordPaymentResponse (responded - submitted)
    | some _, none => p.recordPaymentResponseOutstanding
    | none, _ => p
  else p

/-- The payer is judged on the details of the payment. -/
def addPayment (s : Settlement) : ReputationProfile :=
  if s.buyer = p.wallet then { p with
    paymentsSubmitted := p.paymentsSubmitted + if s.paymentSubmittedAt.isSome then 1 else 0
    paymentDiscrepancies := p.paymentDiscrepancies +
      if s.paymentDiscrepancy.any (· ≠ .other) then 1 else 0 }
  else p

def addOutcome (s : Settlement) : ReputationProfile :=
  match s.state with
  | .approved | .completed =>
    { p.recordVolume s.amount with
      tradesCompleted := p.tradesCompleted + 1
      completedDurationSumMs := p.completedDurationSumMs + (s.updatedAt - s.createdAt) }
  | .cancelled | .rejected => { p with tradesCancelled := p.tradesCancelled + 1 }
  | .awaitingPayment | .paymentSubmitted | .disputed => p

def addStart (s : Settlement) : ReputationProfile :=
  { p.observeActivityAt s.createdAt with tradesStarted := p.tradesStarted + 1 }

def addSettlement (s : Settlement) : ReputationProfile :=
  if s.buyer ≠ p.wallet ∧ s.seller ≠ p.wallet then p
  else (((p.addStart s).addResponse s).addPayment s).addOutcome s

def addDispute (d : Dispute) : ReputationProfile :=
  if d.buyer ≠ p.wallet ∧ d.seller ≠ p.wallet then p
  else { p with
    disputesInvolved := p.disputesInvolved + 1
    disputesLost := p.disputesLost +
      if d.resolution = some .buyerWins ∧ d.seller = p.wallet ∨
        d.resolution = some .merchantWins ∧ d.buyer = p.wallet then 1 else 0 }

def addReservation (r : Reservation) : ReputationProfile :=
  if r.requester = p.wallet ∧ r.state = .expired then
    { p with reservationsMissed := p.reservationsMissed + 1 }
  else p

end Additions

end ReputationProfile

theorem disputeId_injective : Function.Injective DisputeId.id := by
  rintro ⟨_⟩ ⟨_⟩ h
  exact congrArg _ h

open ReputationProfile in
def profile (w : Node) (wallet : PeerId) : Option ReputationProfile := do
  let p ← (CounterpartyHistory.all w.settlements).foldlM (checked Fits addSettlement) (empty wallet)
  let p ← ((w.disputes.inOrder _ disputeId_injective).map Prod.snd).foldlM
    (checked Fits addDispute) p
  ((ReservationRegistry.all w).map Prod.snd).foldlM (checked Fits addReservation) p

/-- The times of a settlement lie in a span that starts at the given time. -/
structure Stamped (since : Timestamp) (M : ℕ) (s : Settlement) : Prop where
  created : since ≤ s.createdAt
  submitted : ∀ t, s.paymentSubmittedAt = some t → since ≤ t
  updated : s.updatedAt ≤ since + M
  responded : ∀ t, s.merchantRespondedAt = some t → t ≤ since + M

namespace ReputationProfile
variable {p p' p'' : ReputationProfile} {s : Settlement} {since : Timestamp}
  {b d d' M : ℕ}

/-- Every counter grows, and by a bounded amount. -/
def Grows (d : ℕ) (p p' : ReputationProfile) : Prop :=
  ∀ counter ∈ counters, counter p ≤ counter p' ∧ counter p' ≤ counter p + d

theorem Grows.refl (d : ℕ) (p : ReputationProfile) : Grows d p p :=
  fun _ _ => ⟨le_rfl, Nat.le_add_right _ _⟩

theorem Grows.trans (h : Grows d p p') (h' : Grows d' p' p'') : Grows (d + d') p p'' := by
  intro counter hcounter
  have hfirst := h counter hcounter
  have hsecond := h' counter hcounter
  omega

theorem Grows.mono (h : Grows d p p') (hd : d ≤ d') : Grows d' p p' :=
  fun counter hcounter => ⟨(h counter hcounter).1, (h counter hcounter).2.trans (by omega)⟩

theorem grows_addStart (p : ReputationProfile) (s : Settlement) : Grows 1 p (p.addStart s) := by
  simp [Grows, counters, addStart, observeActivityAt]

theorem span_le {start first last : ℕ} (hfirst : start ≤ first) (hlast : last ≤ start + M) :
    last ≤ M + 1 + first := by
  omega

theorem grows_addResponse (p : ReputationProfile) (hs : Stamped since M s) :
    Grows (M + 1) p (p.addResponse s) := by
  unfold addResponse
  split_ifs
  · split
    · next submitted responded hsubmitted hresponded =>
      have hle : responded ≤ M + 1 + submitted := span_le (hs.submitted _ hsubmitted)
        (hs.responded _ hresponded)
      simp [Grows, counters, recordPaymentResponse, hle]
    · simp [Grows, counters, recordPaymentResponseOutstanding]
    · exact .refl _ p
  · exact .refl _ p

theorem grows_addPayment (p : ReputationProfile) (s : Settlement) :
    Grows 1 p (p.addPayment s) := by
  unfold addPayment
  split_ifs <;> simp [Grows, counters]

theorem grows_addOutcome (p : ReputationProfile) (hs : Stamped since M s) :
    Grows (M + 1) p (p.addOutcome s) := by
  have hle : s.updatedAt ≤ M + 1 + s.createdAt := span_le hs.created hs.updated
  unfold addOutcome
  split <;> simp [Grows, counters, recordVolume, hle]

theorem grows_addSettlement (p : ReputationProfile) (hs : Stamped since M s) :
    Grows (2 * (M + 2)) p (p.addSettlement s) := by
  unfold addSettlement
  split_ifs
  · exact .refl _ p
  · refine ((((grows_addStart p s).trans (grows_addResponse _ hs)).trans
      (grows_addPayment _ s)).trans (grows_addOutcome _ hs)).mono ?_
    omega

theorem grows_foldl {l : List Settlement} (hl : ∀ s ∈ l, ∃ since, Stamped since M s)
    (p : ReputationProfile) :
    Grows (2 * (M + 2) * l.length) p (l.foldl addSettlement p) := by
  induction l generalizing p with
  | nil => exact .refl _ p
  | cons s l ih =>
    obtain ⟨since, hs⟩ := hl s List.mem_cons_self
    have hfirst := grows_addSettlement p hs
    have hrest := ih (fun s hs => hl s (List.mem_cons_of_mem _ hs)) (p.addSettlement s)
    refine (hfirst.trans hrest).mono (le_of_eq ?_)
    generalize 2 * (M + 2) = k
    rw [List.length_cons, Nat.mul_succ, Nat.add_comm]

end ReputationProfile

open ReputationProfile in
theorem profile_returns {w : Node} {M : ℕ}
    (hstamped : ∀ s ∈ all w.settlements, ∃ since, Stamped since M s)
    (hfew : 2 * (M + 2) * (all w.settlements).length < 2 ^ 64)
    (hdisputes : w.disputes = ∅) (hreservations : w.reservations = ∅) (wallet : PeerId) :
    ∃ p, profile w wallet = some p := by
  have hzero : ∀ counter ∈ counters, counter (empty wallet) = 0 := by simp [counters, empty]
  have hempty : (empty wallet).Fits := fun counter hcounter => by
    rw [hzero counter hcounter]
    decide
  have hback (p : ReputationProfile) (s : Settlement)
      (h : (p.addSettlement s).Fits) : p.Fits := by
    have hs : Stamped 0 (max s.updatedAt (s.merchantRespondedAt.getD 0)) s := by
      refine ⟨Nat.zero_le _, fun t _ => Nat.zero_le t, ?_, fun t ht => ?_⟩ <;> rw [Nat.zero_add]
      · exact le_max_left _ _
      · rw [ht]
        exact le_max_right _ _
    have hgrows := grows_addSettlement p hs
    exact fun counter hcounter => (hgrows counter hcounter).1.trans_lt (h counter hcounter)
  have hfits :
      ((all w.settlements).foldl addSettlement (empty wallet)).Fits := by
    intro counter hcounter
    refine ((grows_foldl hstamped (empty wallet)) counter hcounter).2.trans_lt ?_
    rwa [hzero counter hcounter, Nat.zero_add]
  have hnone {κ α : Type} [DecidableEq κ] (order : κ → String) (horder : Function.Injective order) :
      (∅ : Table κ α).inOrder order horder = [] :=
    List.eq_nil_iff_forall_not_mem.mpr fun e he => by
      simpa using Table.lookup_of_mem_inOrder he
  rw [profile, foldlM_checked hback hempty, if_pos hfits, hdisputes, ReservationRegistry.all,
    hreservations]
  exact ⟨_, rfl⟩

inductive Payload where
  | proposal (signed : Signed ProposalCreate)
  | vote (signed : Signed VoteCast) (weight : ℕ)
  | channel (delivery : Delivery)
  | settlement (input : Input)

structure State where
  governance : Registry
  channels : Channels
  trading : Node

def State.initial : State := ⟨.empty, .empty, emptyNode⟩

structure Platform where
  governance : SignatureScheme GovernanceStatement
  channels : SignatureScheme ChannelStatement
  trading : NodePlatform

/-- A payload that is refused changes nothing, and `none` is an overflow: the closing time of a
proposal is computed once the other checks have passed. -/
def handle (P : Platform) (s : State) : Payload → Option State
  | .proposal signed => match GovernanceRegistry.applyCreate P.governance s.governance signed with
    | .error _ => some s
    | .ok r => if signed.payload.timestamp + defaultVotingPeriod < 2 ^ 64 then
        some { s with governance := r } else none
  | .vote signed weight =>
    let voted :=
      GovernanceRegistry.applyVoteWithVerifiedWeight P.governance s.governance signed weight
    some { s with governance := attempt s.governance voted }
  | .channel delivery => some { s with
      channels := apply (TradeChannels.step P.channels s.trading) s.channels delivery }
  | .settlement input => some { s with trading := apply (NodeSteps.step P.trading) s.trading input }

def runPayloads (P : Platform) (l : List Payload) : Option State := l.foldlM (handle P) .initial

/-- What a payload casts for a choice on a proposal. -/
def Payload.weightFor (id : ProposalId) (choice : VoteChoice) : Payload → ℕ
  | .vote signed weight =>
    if signed.payload.proposalId = id ∧ signed.payload.choice = choice then weight else 0
  | _ => 0

def cast (id : ProposalId) (choice : VoteChoice) (l : List Payload) : ℕ :=
  (l.map (Payload.weightFor id choice)).sum

def stampOf : Event → Timestamp
  | .settlementInitiated signed => signed.payload.timestamp
  | .paymentSubmitted signed => signed.payload.timestamp
  | .paymentReversed signed => signed.payload.timestamp
  | .settlementApproved signed => signed.payload.timestamp
  | .settlementRejected signed => signed.payload.timestamp
  | .settlementCancelled signed => signed.payload.timestamp
  | _ => 0

def Payload.initiates : Payload → Bool
  | .settlement ⟨_, .settlementInitiated _⟩ => true
  | _ => false

/-- The fields of a payload leave room: a proposal for its voting period, an entry for the next one,
and an action is stamped in the span of its settlement. -/
def Payload.Moderate (since : SettlementId → Timestamp) (M : ℕ) : Payload → Prop
  | .proposal signed => signed.payload.timestamp + defaultVotingPeriod < 2 ^ 64
  | .vote _ _ => True
  | .channel (.entryPosted signed) => signed.payload.sequence.toNat + 1 < 2 ^ 64
  | .channel (.keyGranted _) => True
  | .settlement input => ∀ id, signedFor input.event = some id →
      since id ≤ stampOf input.event ∧ stampOf input.event ≤ since id + M

/-- What stays bounded while payloads arrive. -/
structure Kept (since : SettlementId → Timestamp) (M : ℕ) (l : List Payload) (s : State) :
    Prop where
  votes : ∀ id p, s.governance.get id = some p →
    ∀ choice, weightOf p.votes choice ≤ cast id choice l
  entries : ∀ k entry, s.channels.entries.get k = some entry → entry.sequence.toNat + 1 < 2 ^ 64
  stamped : ∀ id x, s.trading.settlements.lookup id = some x → Stamped (since id) M x
  few : s.trading.settlements.keys.card ≤ l.countP Payload.initiates
  disputes : s.trading.disputes = ∅
  reservations : s.trading.reservations = ∅

section Steps
variable {P : Platform} {since : SettlementId → Timestamp} {M : ℕ} {l : List Payload} {x : Payload}
  {s : State}

theorem cast_concat (id : ProposalId) (choice : VoteChoice) :
    cast id choice (l ++ [x]) = cast id choice l + x.weightFor id choice := by
  simp [cast]

theorem Kept.longer (h : Kept since M l s) (x : Payload) : Kept since M (l ++ [x]) s where
  votes id p hp choice := (h.votes id p hp choice).trans (by rw [cast_concat]; omega)
  __ := h
  few := h.few.trans (by simp)

theorem Kept.proposal (h : Kept since M l s) {signed : Signed ProposalCreate} {r : Registry}
    (hstep : applyCreate P.governance s.governance signed = .ok r) :
    Kept since M (l ++ [.proposal signed]) { s with governance := r } := by
  simp only [applyCreate, bind_ok, require_ok, pure_ok] at hstep
  obtain ⟨-, -, -, -, rfl⟩ := hstep
  refine { h.longer _ with votes := fun id p hp choice => ?_ }
  rw [RecordStore.get_put] at hp
  split_ifs at hp
  · rw [← Option.some.inj hp]
    exact Nat.zero_le _
  · exact (h.longer _).votes id p hp choice

theorem Kept.vote (h : Kept since M l s) {signed : Signed VoteCast} {weight : ℕ} {r : Registry}
    (hstep : applyVoteWithVerifiedWeight P.governance s.governance signed
      weight = .ok r) : Kept since M (l ++ [.vote signed weight]) { s with governance := r } := by
  simp only [applyVoteWithVerifiedWeight, applyVoteInner,
    bind_ok, load_ok, require_ok, pure_ok] at hstep
  obtain ⟨-, -, p, hp, -, -, -, -, rfl⟩ := hstep
  refine { h.longer _ with votes := fun id q hq choice => ?_ }
  rw [RecordStore.get_put] at hq
  split_ifs at hq with hid
  · have hbefore := h.votes signed.payload.proposalId p hp choice
    have hkey : p.id = signed.payload.proposalId := RecordStore.idOf_get hp
    obtain rfl : id = signed.payload.proposalId := hid.trans hkey
    rw [← Option.some.inj hq, cast_concat]
    by_cases hchoice : signed.payload.choice = choice <;>
      simpa [weightOf, GovernanceRegistry.Proposal.withVote, Payload.weightFor, hchoice]
        using hbefore
  · exact (h.longer _).votes id q hq choice

theorem Kept.channel (h : Kept since M l s) {delivery : Delivery}
    (hmoderate : (Payload.channel delivery).Moderate since M) :
    Kept since M (l ++ [.channel delivery])
      { s with
        channels := apply (TradeChannels.step P.channels s.trading) s.channels delivery } := by
  refine { h.longer _ with entries := fun k entry hentry => ?_ }
  rw [TradeChannels.apply_step] at hentry
  cases delivery with
  | keyGranted => exact h.entries k entry hentry
  | entryPosted signed =>
    cases hcheck : TradeChannels.entryOf P.channels s.trading (.entryPosted signed) with
    | none =>
      rw [hcheck] at hentry
      exact h.entries k entry hentry
    | some posted =>
      have hsequence : posted.sequence = signed.payload.sequence := by
        have hok := DeliveredRecords.toOption_eq_some.mp hcheck
        simp only [TradeChannels.checkEntry, bind_ok, pure_ok] at hok
        obtain ⟨_, -, _, -, _, -, _, -, rfl⟩ := hok
        rfl
      simp only [hcheck, Option.elim_some] at hentry
      split_ifs at hentry
      · rw [RecordStore.get_put] at hentry
        split_ifs at hentry
        · rw [← Option.some.inj hentry, hsequence]
          exact hmoderate
        · exact h.entries k entry hentry
      · exact h.entries k entry hentry

theorem attempt_transition_of_empty {w : Node} (h : w.reservations = ∅) (now : Timestamp)
    (id : ReservationId) (start : List ReservationState) (target : ReservationState) :
    attempt w (ReservationRegistry.transition now w id start target) = w := by
  cases hstep : ReservationRegistry.transition now w id start target with
  | error => rfl
  | ok =>
    obtain ⟨r, hr, -⟩ := ReservationRegistry.transition_ok.mp hstep
    rw [h] at hr
    cases hr

theorem stamped_of_move {p : NodePlatform} {now : Timestamp} {w : Node} {id : SettlementId}
    {x x' : Settlement} {e : Event} {effect : NodeSteps.Effect} (hpayload : IsSettlementPayload e)
    (hspan : (Payload.settlement ⟨now, e⟩).Moderate since M)
    (h : NodeSteps.Move p now w id x e effect x') (hx : Stamped (since id) M x) :
    Stamped (since id) M x' := by
  cases h with
  | submitted signed hid =>
    obtain ⟨hfirst, hlast⟩ := hspan id (congrArg some hid)
    exact { hx with submitted := fun t ht => Option.some.inj ht ▸ hfirst, updated := hlast }
  | reversed signed hid =>
    exact { hx with
      submitted := fun t ht => by cases ht
      updated := (hspan id (congrArg some hid)).2 }
  | approved signed hid | rejected signed hid =>
    have hlast := (hspan id (congrArg some hid)).2
    exact { hx with updated := hlast, responded := fun t ht => Option.some.inj ht ▸ hlast }
  | cancelled signed hid => exact { hx with updated := (hspan id (congrArg some hid)).2 }
  | released | disputed => exact hpayload.elim
  | resolved e verdict signature hs hstate hverdict =>
    cases e <;> first | exact hpayload.elim | cases hverdict

section Settlements
variable {now : Timestamp} {e : Event} {w : Node} (h : Kept since M l s)
  (hpayload : IsSettlementPayload e)
  (hstep : NodeSteps.step P.trading s.trading ⟨now, e⟩ = .ok w)
include h hpayload hstep

theorem Kept.stamped_step (hspan : (Payload.settlement ⟨now, e⟩).Moderate since M)
    {id : SettlementId} {x : Settlement} (hx : w.settlements.lookup id = some x) :
    Stamped (since id) M x := by
  cases (NodeSteps.step_change hstep).settlement id with
  | same hsame => exact h.stamped id x (hsame ▸ hx)
  | initiated signed he hid _ _ _ hnew =>
    rw [hnew] at hx
    obtain rfl := Option.some.inj hx
    subst he
    obtain ⟨hfirst, hlast⟩ := hspan id (congrArg some hid)
    exact ⟨hfirst, fun t ht => by (cases ht), hlast, fun t ht => by cases ht⟩
  | moved x₀ effect x' hmove hnew =>
    rw [hnew] at hx
    obtain rfl := Option.some.inj hx
    exact stamped_of_move hpayload hspan hmove (h.stamped id x₀ hmove.found)

/-- A payload writes one settlement, which was there unless the payload initiates it. -/
theorem Kept.inserted :
    ∃ id x, w = { s.trading with settlements := s.trading.settlements.insert id x } ∧
      (insert id s.trading.settlements.keys).card ≤
        (l ++ [Payload.settlement ⟨now, e⟩]).countP Payload.initiates := by
  rw [List.countP_append]
  cases NodeSteps.step_change hstep with
  | initiated signed =>
    refine ⟨signed.payload.id, SettlementRegistry.newSettlement signed.payload, ?_,
      (Finset.card_insert_le _ _).trans (Nat.add_le_add_right h.few 1)⟩
    rw [ReservationRegistry.settlementStarted, attempt_transition_of_empty h.reservations]
    rfl
  | moved _ id x x' effect disputes hmove hdisputes =>
    obtain rfl : disputes = s.trading.disputes := by
      rcases hdisputes with hsame | ⟨signed, rfl⟩ | harbitration
      · exact hsame
      · exact hpayload.elim
      · cases e <;> first | exact hpayload.elim | exact harbitration.elim
    have heffect : effect.apply now s.trading x.reservationId = s.trading := by
      cases effect with
      | keep => rfl
      | complete | abandon => exact attempt_transition_of_empty h.reservations _ _ _ _
    have hmem : id ∈ s.trading.settlements.keys :=
      Finmap.mem_keys.mpr (Finmap.mem_of_lookup_eq_some hmove.found)
    refine ⟨id, x', by rw [heffect]; rfl, ?_⟩
    rw [Finset.insert_eq_of_mem hmem]
    exact h.few.trans (Nat.le_add_right _ _)
  | edited _ _ _ _ he | arbitrated _ _ he =>
    cases e <;> first | exact hpayload.elim | exact he.elim
  | _ => exact hpayload.elim

theorem Kept.settlement (hspan : (Payload.settlement ⟨now, e⟩).Moderate since M) :
    Kept since M (l ++ [.settlement ⟨now, e⟩]) { s with trading := w } := by
  obtain ⟨id, x, rfl, hfew⟩ := h.inserted hpayload hstep
  refine { h.longer _ with
    stamped := fun _ _ => h.stamped_step hpayload hstep hspan
    few := ?_ }
  rw [Table.keys_insert]
  exact hfew

end Settlements

theorem kept_initial : Kept since M [] State.initial where
  votes id p hp := by cases hp
  entries k entry hentry := by cases hentry
  stamped id x hx := by cases hx
  few := Nat.zero_le _
  disputes := rfl
  reservations := rfl

/-- One moderate payload is handled without an overflow. -/
theorem Kept.step (h : Kept since M l s) (hmoderate : x.Moderate since M)
    (hpayload : ∀ input, x = .settlement input → IsSettlementPayload input.event) :
    ∃ s', handle P s x = some s' ∧ Kept since M (l ++ [x]) s' := by
  cases x with
  | proposal signed =>
    cases hstep : applyCreate P.governance s.governance signed with
    | error => exact ⟨s, by simp only [handle, hstep], h.longer _⟩
    | ok => exact ⟨_, by simp only [handle, hstep]; exact if_pos hmoderate, h.proposal hstep⟩
  | vote signed weight =>
    refine ⟨_, rfl, ?_⟩
    cases hstep : applyVoteWithVerifiedWeight P.governance s.governance signed
      weight with
    | error e => exact h.longer _
    | ok r => exact h.vote hstep
  | channel => exact ⟨_, rfl, h.channel hmoderate⟩
  | settlement input =>
    obtain ⟨now, e⟩ := input
    refine ⟨_, rfl, ?_⟩
    cases hstep : NodeSteps.step P.trading s.trading ⟨now, e⟩ with
    | error =>
      rw [apply_error hstep]
      exact h.longer _
    | ok =>
      rw [apply_ok hstep]
      exact h.settlement (hpayload _ rfl) hstep hmoderate

end Steps

/-- Each payload is moderate, the weights cast for a choice fit 64 bits, and so do the spans of the
settlements added up. -/
structure Moderates (since : SettlementId → Timestamp) (M : ℕ) (l : List Payload) : Prop where
  payloads : ∀ x ∈ l, x.Moderate since M
  weights : ∀ id choice, cast id choice l < 2 ^ 64
  times : 2 * (M + 2) * l.countP Payload.initiates < 2 ^ 64

theorem runPayloads_kept (P : Platform) {since : SettlementId → Timestamp} {M : ℕ}
    {l : List Payload} (h : ∀ x ∈ l, x.Moderate since M)
    (hpayload : ∀ input, .settlement input ∈ l → IsSettlementPayload input.event) :
    ∃ s, runPayloads P l = some s ∧ Kept since M l s := by
  induction l using List.reverseRecOn with
  | nil => exact ⟨_, rfl, kept_initial⟩
  | append_singleton l x ih =>
    obtain ⟨s, hs, hkept⟩ := ih (fun x hx => h x (by simp [hx]))
      fun input hinput => hpayload input (by simp [hinput])
    obtain ⟨s', hs', hkept'⟩ := hkept.step (P := P) (h x (by simp))
      fun input hx => hpayload input (by simp [hx])
    refine ⟨s', ?_, hkept'⟩
    rw [runPayloads] at hs ⊢
    rw [List.foldlM_append, hs]
    simp [hs']

theorem length_all_le (r : CounterpartyHistory.Settlements) :
    (all r).length ≤ r.keys.card := by
  rw [all, List.length_map]
  refine (List.length_filterMap_le _ _).trans (le_of_eq ?_)
  rw [← Multiset.coe_card, Table.coe_ascending]
  rfl

/-- While all payloads are moderate, none of them and no call in between ends in an overflow. -/
theorem no_overflow_of_moderate (P : Platform) (since : SettlementId → Timestamp) (M : ℕ)
    (l : List Payload)
    (hpayload : ∀ input, .settlement input ∈ l → IsSettlementPayload input.event)
    (h : Moderates since M l) : ∀ mid, mid <+: l → ∃ s, runPayloads P mid = some s ∧
      (∀ id now, ∃ preview, localVotePreview s.governance id now = some preview) ∧
      (∀ settlement author, ∃ n,
        nextSequence (TradeChannels.channel s.channels settlement) author = some n) ∧
      ∀ wallet, ∃ p, profile s.trading wallet = some p := by
  rintro mid ⟨rest, rfl⟩
  obtain ⟨s, hrun, hkept⟩ := runPayloads_kept P
    (fun x hx => h.payloads x (List.mem_append_left rest hx))
    fun input hinput => hpayload input (List.mem_append_left rest hinput)
  refine ⟨s, hrun, fun id now => ?_, fun settlement author => ?_, fun wallet => ?_⟩
  · refine localVotePreview_returns (fun p hp choice => ?_) now
    refine ((hkept.votes id p hp choice).trans ?_).trans_lt (h.weights id choice)
    simp [cast]
  · refine nextSequence_returns (fun entry hentry => ?_) author
    exact hkept.entries _ entry (TradeChannels.mem_scan.mp hentry).1
  · refine profile_returns (M := M) (fun x hx => ?_) ?_ hkept.disputes hkept.reservations wallet
    · obtain ⟨e, he, rfl⟩ := List.mem_map.mp hx
      exact ⟨since e.1, hkept.stamped e.1 e.2 (Table.lookup_of_mem_inOrder he)⟩
    · have hle : (CounterpartyHistory.all s.trading.settlements).length ≤
          (mid ++ rest).countP Payload.initiates := by
        rw [List.countP_append]
        exact ((length_all_le _).trans hkept.few).trans (Nat.le_add_right _ _)
      exact (Nat.mul_le_mul_left _ hle).trans_lt h.times

namespace Overflowing

def scheme (σ : Type) : SignatureScheme σ := ⟨fun _ _ _ => true, fun key => some ⟨key.bytes⟩⟩

def platform : Platform :=
  ⟨scheme _, scheme _, { NodeSteps.signedPlatform [] with verify := fun _ _ _ => true }⟩

def proposal (time : Timestamp) : Payload :=
  .proposal ⟨⟨⟨"p"⟩, "", "", .protocol, peer 1, .filled 1, none, time⟩, ⟨[]⟩⟩

def vote (k : UInt8) : Payload :=
  .vote ⟨⟨⟨"p"⟩, peer k, .filled k, .approve, 2 ^ 63, "", 0⟩, ⟨[]⟩⟩ (2 ^ 63)

/-- A sale to be paid at once and approved at the given time. -/
def sale (id : String) (time : Timestamp) : List Payload :=
  [.settlementInitiated ⟨⟨⟨id⟩, ⟨"r"⟩, peer 1, .filled 1, peer 2, .filled 2, .new 1 0, 0⟩, ⟨[]⟩⟩,
    .paymentSubmitted ⟨⟨⟨id⟩, peer 1, none, 0⟩, ⟨[]⟩⟩,
    .settlementApproved ⟨⟨⟨id⟩, peer 2, time⟩, ⟨[]⟩⟩].map fun e => .settlement ⟨0, e⟩

def entry (sequence : UInt64) : Payload :=
  .channel (.entryPosted ⟨⟨⟨"s"⟩, peer 1, sequence, .message, ⟨[], [], []⟩, 0⟩, ⟨[]⟩⟩)

end Overflowing

open Overflowing in
/-- A proposal from the end of time, two heavy votes, the last sequence number of a channel and two
late approvals each end in an overflow. -/
theorem overflowing_payloads :
    runPayloads platform [proposal (2 ^ 64 - 1)] = none ∧
    (runPayloads platform [proposal 0, vote 1, vote 2]).map
      (localVotePreview ·.governance ⟨"p"⟩ 0) = some none ∧
    (runPayloads platform (sale "s" 1 ++ [entry 18446744073709551615])).map
      (fun s => nextSequence (TradeChannels.channel s.channels ⟨"s"⟩) (peer 1)) = some none ∧
    (runPayloads platform (sale "s" (2 ^ 63) ++ sale "t" (2 ^ 63))).map
      (fun s => (profile s.trading (peer 2)).isNone) = some true := by
  refine ⟨?_, by decide +kernel, by decide +kernel, by decide +kernel⟩
  rfl

open Overflowing in
theorem no_overflow_of_moderate_sale : ∃ s, runPayloads platform
      ([proposal 0, vote 1] ++ sale "s" 5 ++ [entry 0]) = some s ∧
    ∀ wallet, ∃ p, profile s.trading wallet = some p := by
  have hmoderates : Moderates (fun _ => 0) 5 ([proposal 0, vote 1] ++ sale "s" 5 ++ [entry 0]) := by
    refine ⟨?_, fun id choice => ?_, by decide⟩
    · simp [sale, proposal, vote, entry, Payload.Moderate, stampOf, signedFor, defaultVotingPeriod]
    · have hcast : cast id choice ([proposal 0, vote 1] ++ sale "s" 5 ++ [entry 0]) ≤ 2 ^ 63 := by
        simp only [cast, sale, proposal, vote, entry, List.cons_append, List.nil_append,
          List.map_cons, List.map_nil, List.sum_cons, List.sum_nil, Payload.weightFor]
        split_ifs <;> simp
      omega
  obtain ⟨s, hrun, -, -, hprofile⟩ := no_overflow_of_moderate platform _ 5 _
    (by simp [sale, proposal, vote, entry, IsSettlementPayload]) hmoderates _ (List.prefix_refl _)
  exact ⟨s, hrun, hprofile⟩

end OpenFiat.PayloadArithmetic
