import OpenFiat.GossipNode

/-!
# What a node observed of its peers

Every event that the gossip service stores is a sign of life of the peer that signed it. The
reward ledger divides time into epochs and every epoch into slices, and keeps for each peer the
slices it was heard in. Both are read off the timestamp that the event carries, which `validate`
bounds from above only. So an epoch that is over changes when an event with an old date arrives.

An epoch is final as soon as the clock has left it if no stored event is dated before the epoch it
arrives in. If it is dated in the slice it arrives in, no peer is credited with more slices than it
was heard in.
-/
namespace OpenFiat.LivenessObservations
open FiniteTable NodePayloads GossipEvents GossipNode

structure RewardParams where
  epochMillis : UInt64
  availabilityBuckets : UInt32
  perEpochEmission : UInt64
  connectivityRpcBps : UInt64
  connectivityGossipBps : UInt64
  pinningServingBps : UInt64
  pinningAbsentBps : UInt64
  minStake : UInt64
deriving DecidableEq, Repr

def bpsDenominator : UInt64 := 10000

/-- One OPEN in base units. -/
def oneOpen : UInt64 := 1000000

namespace RewardParams

def default : RewardParams where
  epochMillis := 24 * 60 * 60 * 1000
  availabilityBuckets := 24
  perEpochEmission := 82192 * oneOpen
  connectivityRpcBps := bpsDenominator
  connectivityGossipBps := 4000
  pinningServingBps := bpsDenominator
  pinningAbsentBps := 7000
  minStake := 1000 * oneOpen

def epochIndex (P : RewardParams) (time : UInt64) : ℕ := time.toNat / max P.epochMillis.toNat 1

def epochBounds (P : RewardParams) (epoch : ℕ) : ℕ × ℕ :=
  let start := min (epoch * P.epochMillis.toNat) (2 ^ 64 - 1)
  (start, min (start + P.epochMillis.toNat) (2 ^ 64 - 1))

/-- The slice of its epoch that a moment is in. -/
def bucket (P : RewardParams) (time : UInt64) : ℕ :=
  let elapsed := time.toNat - (P.epochBounds (P.epochIndex time)).1
  let slice := P.epochMillis.toNat / max P.availabilityBuckets.toNat 1
  min (elapsed / max slice 1 % 2 ^ 32) (P.availabilityBuckets.toNat - 1)

end RewardParams

structure PeerLiveness where
  bucketsSeen : Finset ℕ := ∅
  announcedBlockhash : Bool := false
  servedContent : Bool := false
deriving DecidableEq

/-- One more event of the peer. -/
def PeerLiveness.heard (entry : PeerLiveness) (bucket : ℕ) (isBlockhashAnnouncement : Bool) :
    PeerLiveness :=
  { entry with
    bucketsSeen := insert bucket entry.bucketsSeen
    announcedBlockhash := entry.announcedBlockhash || isBlockhashAnnouncement }

structure LivenessLedger where
  epochs : Table ℕ (Table PeerId PeerLiveness) := ∅

namespace LivenessLedger

def epoch (ledger : LivenessLedger) (epoch : ℕ) : Table PeerId PeerLiveness :=
  (ledger.epochs.lookup epoch).getD ∅

def observe (P : RewardParams) (ledger : LivenessLedger) (origin : PeerId) (observedAt : UInt64)
    (isBlockhashAnnouncement : Bool) : LivenessLedger :=
  let epoch := P.epochIndex observedAt
  let peers := ledger.epoch epoch
  let entry := (peers.lookup origin).getD {}
  let entry := entry.heard (P.bucket observedAt) isBlockhashAnnouncement
  { epochs := ledger.epochs.insert epoch (peers.insert origin entry) }

/-- The slices of an epoch that a peer is credited with. -/
def credited (ledger : LivenessLedger) (epoch : ℕ) (peer : PeerId) : Finset ℕ :=
  ((ledger.epoch epoch).lookup peer).elim ∅ PeerLiveness.bucketsSeen

variable {P : RewardParams} {ledger : LivenessLedger} {origin : PeerId} {time : UInt64}
  {announcement : Bool} {e : ℕ}

theorem epoch_observe_of_ne (h : P.epochIndex time ≠ e) :
    (ledger.observe P origin time announcement).epoch e = ledger.epoch e := by
  simp only [observe, epoch]
  rw [Finmap.lookup_insert_of_ne _ h.symm]

theorem epoch_observe : (ledger.observe P origin time announcement).epoch (P.epochIndex time) =
    (ledger.epoch (P.epochIndex time)).insert origin
      ((((ledger.epoch (P.epochIndex time)).lookup origin).getD {}).heard (P.bucket time)
        announcement) := by
  simp only [observe]
  rw [epoch, Finmap.lookup_insert, Option.getD_some]

/-- One event adds one slice, for its origin and in the epoch of its date. -/
theorem credited_observe (peer : PeerId) :
    (ledger.observe P origin time announcement).credited e peer =
      if origin = peer ∧ P.epochIndex time = e then insert (P.bucket time) (ledger.credited e peer)
      else ledger.credited e peer := by
  by_cases he : P.epochIndex time = e
  · subst he
    rw [credited, epoch_observe]
    by_cases hpeer : origin = peer
    · subst hpeer
      rw [if_pos ⟨rfl, rfl⟩, Finmap.lookup_insert, credited]
      cases (ledger.epoch (P.epochIndex time)).lookup origin with
      | none | some => rfl
    · rw [if_neg fun h => hpeer h.1, Finmap.lookup_insert_of_ne _ (Ne.symm hpeer), credited]
  · rw [if_neg fun h => he h.2, credited, epoch_observe_of_ne he, credited]

end LivenessLedger

/-- An event that is handed to the node, with the time on its clock and the decision of the token
bucket. -/
structure Offer (π : Type) where
  now : UInt64
  credit : Bool
  source : Option π
  event : EventEnvelope

structure NodeState (π : Type) where
  gossip : GossipService π
  rewardObservations : LivenessLedger

def NodeState.new {π : Type} (g : GossipService π) : NodeState π where
  gossip := g
  rewardObservations := {}

def isAnnouncement (e : EventEnvelope) : Bool :=
  e.ofsSpec = 4300 && e.eventType = "BlockhashAnnounced"

/-- The event handler that keeps the ledger. -/
def livenessHandler (P : RewardParams) (ledger : LivenessLedger) (e : EventEnvelope) :
    LivenessLedger :=
  ledger.observe P e.origin e.timestamp (isAnnouncement e)

section Runs
variable {π : Type} [DecidableEq π] (G : GossipPlatform) (P : RewardParams)

def offered (g : GossipService π) (o : Offer π) : ReceiveOutcome × GossipService π × Sends π :=
  receiveEvent G o.now o.credit g o.source o.event

/-- The handlers are notified of an event when it is stored, after its hop budget was clamped. -/
def receive (n : NodeState π) (o : Offer π) : NodeState π where
  gossip := (offered G n.gossip o).2.1
  rewardObservations :=
    if (offered G n.gossip o).1 = .stored then
      livenessHandler P n.rewardObservations (clampTtl o.event)
    else n.rewardObservations

def run (n : NodeState π) (offers : List (Offer π)) : NodeState π := offers.foldl (receive G P) n

/-- The offers of a run that end in the store. -/
def stored : GossipService π → List (Offer π) → List (Offer π)
  | _, [] => []
  | g, o :: offers =>
    if (offered G g o).1 = .stored then o :: stored (offered G g o).2.1 offers
    else stored (offered G g o).2.1 offers

/-- The slices of an epoch, on the clock of the node, in which it received an event of a peer. -/
def slicesHeard (g : GossipService π) (offers : List (Offer π)) (epoch : ℕ) (peer : PeerId) :
    Finset ℕ :=
  (((stored G g offers).filter fun o => o.event.origin = peer ∧ P.epochIndex o.now = epoch).map
    fun o => P.bucket o.now).toFinset

/-- The event is dated in the slice that the clock shows. -/
def SameSlice (o : Offer π) : Prop :=
  P.epochIndex o.event.timestamp = P.epochIndex o.now ∧
    P.bucket o.event.timestamp = P.bucket o.now

variable {G P} {g : GossipService π} {n : NodeState π} {o : Offer π}
  {offers before after : List (Offer π)} {epoch : ℕ}

theorem stored_sublist (g : GossipService π) (offers : List (Offer π)) :
    (stored G g offers).Sublist offers := by
  induction offers generalizing g with
  | nil => exact .slnil
  | cons o offers ih =>
    rw [stored]
    split_ifs
    · exact (ih _).cons_cons o
    · exact (ih _).cons o

/-- The ledger is made by the handler alone, from the stored events in the order of arrival. -/
theorem rewardObservations_run (n : NodeState π) (offers : List (Offer π)) :
    (run G P n offers).rewardObservations =
      (stored G n.gossip offers).foldl (fun ledger o => livenessHandler P ledger (clampTtl o.event))
        n.rewardObservations := by
  induction offers generalizing n with
  | nil => rfl
  | cons o offers ih =>
    rw [run, List.foldl_cons, ← run, ih, stored]
    simp only [receive]
    split_ifs <;> rfl

theorem stored_append (G : GossipPlatform) (P : RewardParams) (n : NodeState π)
    (before after : List (Offer π)) :
    stored G n.gossip (before ++ after) =
      stored G n.gossip before ++ stored G (run G P n before).gossip after := by
  induction before generalizing n with
  | nil => rfl
  | cons o before ih =>
    have hrest : stored G (offered G n.gossip o).2.1 (before ++ after) =
        stored G (offered G n.gossip o).2.1 before ++
          stored G (run G P n (o :: before)).gossip after := ih (receive G P n o)
    simp only [List.cons_append, stored, hrest]
    split_ifs <;> rfl

omit [DecidableEq π] in
theorem epoch_foldl_handler (ledger : LivenessLedger)
    (h : ∀ o ∈ offers, P.epochIndex o.event.timestamp ≠ epoch) :
    (offers.foldl (fun ledger o => livenessHandler P ledger (clampTtl o.event)) ledger).epoch
      epoch = ledger.epoch epoch := by
  induction offers generalizing ledger with
  | nil => rfl
  | cons o offers ih =>
    rw [List.foldl_cons, ih _ fun o' ho' => h o' (List.mem_cons_of_mem _ ho')]
    exact LivenessLedger.epoch_observe_of_ne (h o List.mem_cons_self)

omit [DecidableEq π] in
theorem later_of_head (hclock : offers.Pairwise fun o o' => o.now ≤ o'.now)
    (hhead : ∀ o ∈ offers.head?, epoch < P.epochIndex o.now) :
    ∀ o ∈ offers, epoch < P.epochIndex o.now := by
  cases offers with
  | nil => exact fun o ho => absurd ho List.not_mem_nil
  | cons first =>
    have hfirst := hhead first rfl
    intro o ho
    rcases List.mem_cons.mp ho with rfl | ho
    · exact hfirst
    · exact hfirst.trans_le (Nat.div_le_div_right
        (UInt64.le_iff_toNat_le.mp (List.rel_of_pairwise_cons hclock ho)))

omit [DecidableEq π] in
theorem credited_foldl_handler (ledger : LivenessLedger) (offers : List (Offer π)) (peer : PeerId) :
    (offers.foldl (fun ledger o => livenessHandler P ledger (clampTtl o.event)) ledger).credited
        epoch peer =
      ledger.credited epoch peer ∪
        ((offers.filter fun o => o.event.origin = peer ∧
          P.epochIndex o.event.timestamp = epoch).map
            fun o => P.bucket o.event.timestamp).toFinset := by
  induction offers generalizing ledger with
  | nil => simp
  | cons o offers ih =>
    have hfirst : (livenessHandler P ledger (clampTtl o.event)).credited epoch peer =
        if o.event.origin = peer ∧ P.epochIndex o.event.timestamp = epoch then
          insert (P.bucket o.event.timestamp) (ledger.credited epoch peer)
        else ledger.credited epoch peer := LivenessLedger.credited_observe peer
    rw [List.foldl_cons, ih, hfirst, List.filter_cons]
    split_ifs with hcounts hdecide hdecide
    · rw [List.map_cons, List.toFinset_cons, Finset.insert_union, Finset.union_insert]
    · exact absurd (decide_eq_true hcounts) hdecide
    · exact absurd (of_decide_eq_true hdecide) hcounts
    · rfl

theorem credited_run_of_timely (hsame : ∀ o ∈ stored G g offers, SameSlice P o) (peer : PeerId) :
    (run G P (NodeState.new g) offers).rewardObservations.credited epoch peer =
      slicesHeard G P g offers epoch peer := by
  rw [rewardObservations_run, credited_foldl_handler]
  ext slice
  simp only [NodeState.new, LivenessLedger.credited, LivenessLedger.epoch, slicesHeard,
    Finset.mem_union, List.mem_toFinset, List.mem_map, List.mem_filter, decide_eq_true_eq]
  refine (or_iff_right (Finset.notMem_empty slice)).trans (exists_congr fun o => ?_)
  rw [and_assoc, and_assoc, and_assoc, and_assoc]
  refine and_congr_right fun ho => ?_
  rw [(hsame o ho).1, (hsame o ho).2]

/-- An epoch does not change once the clock has passed its end if no stored event is dated before
the epoch it arrives in. A peer is credited with no more slices than it was heard in if the stored
events are dated in the slice they arrive in. -/
theorem final_and_bounded_of_timely (G : GossipPlatform) (P : RewardParams) (g : GossipService π)
    (offers : List (Offer π)) (hclock : offers.Pairwise fun o o' => o.now ≤ o'.now) :
    ((∀ o ∈ stored G g offers, P.epochIndex o.now ≤ P.epochIndex o.event.timestamp) →
      ∀ before after epoch, offers = before ++ after →
      (∀ o ∈ after.head?, epoch < P.epochIndex o.now) →
      (run G P (NodeState.new g) offers).rewardObservations.epoch epoch =
        (run G P (NodeState.new g) before).rewardObservations.epoch epoch) ∧
    ((∀ o ∈ stored G g offers, SameSlice P o) → ∀ epoch peer,
      ((run G P (NodeState.new g) offers).rewardObservations.credited epoch peer).card ≤
        (slicesHeard G P g offers epoch peer).card) := by
  constructor
  · rintro hdated before after epoch rfl hhead
    have hafter := (List.pairwise_append.mp hclock).2.1
    have hstored := stored_append G P (NodeState.new g) before after
    rw [rewardObservations_run, rewardObservations_run, hstored, List.foldl_append]
    refine epoch_foldl_handler _ fun o ho => ?_
    have hlater := later_of_head hafter hhead o ((stored_sublist _ _).subset ho)
    exact (hlater.trans_le (hdated o (hstored ▸ List.mem_append_right _ ho))).ne'
  · intro hsame epoch peer
    exact (congrArg Finset.card (credited_run_of_timely hsame peer)).le

end Runs

def acceptingPlatform : GossipPlatform where
  sha256 _ := .filled 0
  verifyBytes _ _ _ := true
  publicKeyFromPeerId _ := some (.filled 7)

def signOfLife (timestamp : UInt64) : EventEnvelope where
  id := .filled 0
  eventType := "BlockhashAnnounced"
  ofsSpec := 4300
  version := 1
  origin := ⟨[1]⟩
  timestamp := timestamp
  ttl := 8
  priority := .backgroundSync
  signature := ⟨List.replicate 64 0⟩
  payload := []

def freshService : GossipService ℕ := .new 0 ⟨[2]⟩ ∅

/-- Noon of the eleventh day. -/
def noon : UInt64 := 907200000

/-- An event dated on the first day arrives on the eleventh. -/
def oldOffer : Offer ℕ := ⟨noon, true, none, signOfLife 0⟩

def promptOffer : Offer ℕ := ⟨noon, true, none, signOfLife noon⟩

/-- The first day is over for ten days and nothing was received in it. Then a peer sends an event
that is dated on that day, and is credited with a slice of it. -/
theorem old_event_credited :
    RewardParams.default.epochIndex oldOffer.now = 10 ∧
    ((run acceptingPlatform .default (.new freshService) []).rewardObservations.epoch 0).lookup
      ⟨[1]⟩ = none ∧
    ((run acceptingPlatform .default (.new freshService) [oldOffer]).rewardObservations.epoch
      0).lookup ⟨[1]⟩ = some ⟨{0}, true, false⟩ ∧
    (slicesHeard acceptingPlatform .default freshService [oldOffer] 0 ⟨[1]⟩).card = 0 := by
  decide +kernel

/-- A prompt event is credited once, and the days before it stay as they are. -/
theorem final_and_bounded_of_timely_prompt :
    ((run acceptingPlatform .default (.new freshService) [promptOffer]).rewardObservations.epoch
      9) = (run acceptingPlatform .default (.new freshService) []).rewardObservations.epoch 9 ∧
    ((run acceptingPlatform .default (.new freshService) [promptOffer]).rewardObservations.credited
      10 ⟨[1]⟩).card ≤
        (slicesHeard acceptingPlatform .default freshService [promptOffer] 10 ⟨[1]⟩).card := by
  have hsame : ∀ o ∈ stored acceptingPlatform freshService [promptOffer], SameSlice .default o := by
    intro o ho
    obtain rfl := List.mem_singleton.mp ((stored_sublist _ _).subset ho)
    exact ⟨rfl, rfl⟩
  have h := final_and_bounded_of_timely acceptingPlatform .default freshService [promptOffer]
    (List.pairwise_singleton _ _)
  refine ⟨h.1 (fun o ho => (hsame o ho).1.ge) [] [promptOffer] 9 rfl ?_, h.2 hsame 10 ⟨[1]⟩⟩
  intro o ho
  cases ho
  decide

end OpenFiat.LivenessObservations
