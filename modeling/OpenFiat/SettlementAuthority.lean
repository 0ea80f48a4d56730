import OpenFiat.NodeSteps

/-!
# Who can act on a settlement

Authority over a settlement is fixed when its initiate payload is stored: the payload names
two peers and gives a key for each, and every later action is checked against the stored
keys. The buyer's key is checked to derive the buyer's peer id. The seller's is not, so the
stored seller key need not belong to the named seller.

`BuyerAuthority` and `SellerAuthority` are the law for one accepted event. The first holds
throughout every run, the second for each settlement whose accepted initiate payload gives
the key of the seller that it names.
-/
namespace OpenFiat.SettlementAuthority
open GuardedResult NodePayloads TradingNode SettlementRegistry NodeSteps
open TransactionRuns

def SignedBy (p : NodePlatform) (Signs : PublicKey → Statement → Prop) (peer : PeerId)
    (statement : Statement) : Prop :=
  (∃ key, p.peerIdFromPublicKey key = some peer) ∧
    ∀ key, p.peerIdFromPublicKey key = some peer → Signs key statement

/-- What an accepted event needs from the buyers of the settlements that it changes. -/
structure BuyerAuthority (p : NodePlatform) (Signs : PublicKey → Statement → Prop)
    (t : Transition Node Input) : Prop where
  created : ∀ id s, t.before.settlements.lookup id = none →
    t.after.settlements.lookup id = some s → ∃ initiate : SettlementInitiate,
      initiate.id = id ∧ initiate.buyer = s.buyer ∧
        SignedBy p Signs s.buyer (.settlementInitiate initiate)
  submitted : ∀ id s s', t.before.settlements.lookup id = some s →
    t.after.settlements.lookup id = some s' → s.state ≠ .paymentSubmitted →
    s'.state = .paymentSubmitted → ∃ action : PaymentSubmitted,
      action.settlementId = id ∧ action.buyer = s'.buyer ∧
        SignedBy p Signs s'.buyer (.paymentSubmitted action)
  reversed : ∀ id s s', t.before.settlements.lookup id = some s →
    t.after.settlements.lookup id = some s' → s.state = .paymentSubmitted →
    s'.state = .awaitingPayment → ∃ action : PaymentReversed,
      action.settlementId = id ∧ action.buyer = s'.buyer ∧
        SignedBy p Signs s'.buyer (.paymentReversed action)
  cancelled : ∀ signed : Signed SettlementCancelled,
    t.label.event = .settlementCancelled signed → ∃ s,
      t.before.settlements.lookup signed.payload.settlementId = some s ∧
        (signed.payload.canceller = s.buyer ∨ signed.payload.canceller = s.seller) ∧
        (signed.payload.canceller = s.buyer →
          SignedBy p Signs s.buyer (.settlementCancelled signed.payload))
  ended : ∀ id s s', t.before.settlements.lookup id = some s →
    t.after.settlements.lookup id = some s' → s.state ≠ .cancelled → s'.state = .cancelled →
    (∃ signed : Signed SettlementCancelled, t.label.event = .settlementCancelled signed ∧
      signed.payload.settlementId = id) ∨
    verdictOn t.before t.label.event = some (id, .escrowReturned)

/-- What an accepted event needs from the seller of a settlement that it changes. -/
structure SellerAuthority (p : NodePlatform) (Signs : PublicKey → Statement → Prop)
    (t : Transition Node Input) (id : SettlementId) : Prop where
  approved : ∀ s s', t.before.settlements.lookup id = some s →
    t.after.settlements.lookup id = some s' → s.state ≠ .approved →
    s'.state = .approved → ∃ action : SettlementApproved,
      action.settlementId = id ∧ action.seller = s'.seller ∧
        SignedBy p Signs s'.seller (.settlementApproved action)
  rejected : ∀ s s', t.before.settlements.lookup id = some s →
    t.after.settlements.lookup id = some s' → s.state ≠ .rejected →
    s'.state = .rejected → ∃ action : SettlementRejected,
      action.settlementId = id ∧ action.seller = s'.seller ∧
        SignedBy p Signs s'.seller (.settlementRejected action)
  cancelled : ∀ (signed : Signed SettlementCancelled) s,
    t.label.event = .settlementCancelled signed → signed.payload.settlementId = id →
    t.before.settlements.lookup id = some s → signed.payload.canceller = s.seller →
      SignedBy p Signs s.seller (.settlementCancelled signed.payload)

def initiateOf : Event → Option (Signed SettlementInitiate)
  | .settlementInitiated signed => some signed
  | _ => none

/-- An initiate payload of the settlement gives the key of the seller that it names. -/
def BindsSeller (p : NodePlatform) (id : SettlementId) (e : Event) : Prop :=
  ∀ signed ∈ initiateOf e, signed.payload.id = id →
    p.peerIdFromPublicKey signed.payload.sellerPublicKey = some signed.payload.seller

instance (p : NodePlatform) (id : SettlementId) (e : Event) : Decidable (BindsSeller p id e) :=
  inferInstanceAs (Decidable (∀ signed ∈ initiateOf e, _))

def BuyersBound (p : NodePlatform) (w : Node) : Prop := ∀ id s,
  w.settlements.lookup id = some s → p.peerIdFromPublicKey s.buyerPublicKey = some s.buyer

def SellerBound (p : NodePlatform) (id : SettlementId) (w : Node) : Prop := ∀ s,
  w.settlements.lookup id = some s → p.peerIdFromPublicKey s.sellerPublicKey = some s.seller

variable {p : NodePlatform} {now : Timestamp} {w w' : Node} {e : Event} {id : SettlementId}

theorem Change.buyersBound (hchange : Change p now w e w') (h : BuyersBound p w) :
    BuyersBound p w' := by
  intro id s hs
  cases hchange.settlement id with
  | same hsame => exact h id s (hsame ▸ hs)
  | initiated signed he _ hkey _ _ hnew =>
    obtain rfl := Option.mem_unique hnew hs
    exact hkey
  | moved s₀ effect s' hmove hnew =>
    obtain rfl := Option.mem_unique hnew hs
    have hterms := hmove.sameTerms
    rw [hterms.buyerPublicKey, hterms.buyer]
    exact h id s₀ hmove.found

theorem Change.sellerBound (hchange : Change p now w e w') (hbinds : BindsSeller p id e)
    (h : SellerBound p id w) : SellerBound p id w' := by
  intro s hs
  cases hchange.settlement id with
  | same hsame => exact h s (hsame ▸ hs)
  | initiated signed he hid _ _ _ hnew =>
    subst he
    obtain rfl := Option.mem_unique hnew hs
    exact hbinds signed rfl hid
  | moved s₀ effect s' hmove hnew =>
    obtain rfl := Option.mem_unique hnew hs
    have hterms := hmove.sameTerms
    rw [hterms.sellerPublicKey, hterms.seller]
    exact h s₀ hmove.found

section Signatures
variable {Signs : PublicKey → Statement → Prop}
  (hunforgeable : ∀ key statement signature, p.verify key statement signature = true →
    Signs key statement)
  (hinjective : ∀ key key' peer, p.peerIdFromPublicKey key = some peer →
    p.peerIdFromPublicKey key' = some peer → key = key')
include hunforgeable hinjective

theorem signedBy_of_verify {key : PublicKey} {peer : PeerId} {statement : Statement}
    {signature : Signature} (hkey : p.peerIdFromPublicKey key = some peer)
    (hverify : p.verify key statement signature = true) : SignedBy p Signs peer statement := by
  refine ⟨⟨key, hkey⟩, fun key' hkey' => ?_⟩
  rw [hinjective key' key peer hkey' hkey]
  exact hunforgeable key statement signature hverify

/-- A cancellation is checked against the key of the party in whose name it is made; a peer
that is both parties counts as the buyer. -/
theorem signedBy_of_canceller (hbuyers : BuyersBound p w) {signed : Signed SettlementCancelled}
    {s : Settlement} (hacts : CancellerActs p w signed s) :
    (signed.payload.canceller = s.buyer →
      SignedBy p Signs s.buyer (.settlementCancelled signed.payload)) ∧
    (signed.payload.canceller = s.seller →
      p.peerIdFromPublicKey s.sellerPublicKey = some s.seller →
      SignedBy p Signs s.seller (.settlementCancelled signed.payload)) ∧
    (signed.payload.canceller = s.buyer ∨ signed.payload.canceller = s.seller) := by
  obtain ⟨key, hkey, hverify⟩ := hacts.verified
  have hbuyer := hbuyers _ s hacts.found
  unfold cancellerKey at hkey
  split_ifs at hkey with hisBuyer hisSeller
  · obtain rfl := Option.some.inj hkey
    have hsigned := signedBy_of_verify hunforgeable hinjective hbuyer hverify
    exact ⟨fun _ => hsigned, fun hboth _ => hboth ▸ hisBuyer ▸ hsigned, .inl hisBuyer⟩
  · obtain rfl := Option.some.inj hkey
    refine ⟨fun h => absurd h hisBuyer, fun _ hseller => ?_, .inr hisSeller⟩
    exact signedBy_of_verify hunforgeable hinjective hseller hverify

/-- An action that one party's check let through is signed by that party, whose name the
moved record still has. -/
theorem signedBy_of_party {id : SettlementId} {party : Settlement → PeerId × PublicKey}
    {claimed : PeerId} {statement : Statement} {signature : Signature} {start : SettlementState}
    {s : Settlement} (hacts : PartyActs p w id party claimed statement signature start s)
    (hbound : p.peerIdFromPublicKey (party s).2 = some (party s).1) {named : PeerId}
    (hnamed : named = (party s).1) : claimed = named ∧ SignedBy p Signs named statement := by
  subst hnamed
  exact ⟨hacts.named.symm, signedBy_of_verify hunforgeable hinjective hbound hacts.verified⟩

theorem step_buyerAuthority {input : Input} (hbuyers : BuyersBound p w)
    (hstep : step p w input = .ok w') : BuyerAuthority p Signs ⟨w, input, w'⟩ := by
  have hchange := step_change hstep
  constructor
  case created =>
    intro id s hs hs'
    cases hchange.settlement id with
    | same hsame =>
      rw [hsame, hs] at hs'
      cases hs'
    | initiated signed he hid hkey hverify hfresh hnew =>
      obtain rfl := Option.mem_unique hnew hs'
      exact ⟨signed.payload, hid, rfl,
        signedBy_of_verify hunforgeable hinjective hkey hverify⟩
    | moved s₀ effect s' hmove =>
      rw [hmove.found] at hs
      cases hs
  case submitted =>
    intro id s s' hs hs' hbefore hafter
    obtain ⟨effect, hmove⟩ := hchange.move_of_ne hs hs' fun h => hbefore (h.trans hafter)
    obtain ⟨signed, -, hid, hacts⟩ := hmove.into_paymentSubmitted hafter
    exact ⟨signed.payload, hid, signedBy_of_party hunforgeable hinjective hacts
      (hbuyers id s hs) hmove.sameTerms.buyer⟩
  case reversed =>
    intro id s s' hs hs' hbefore hafter
    have hne : s.state ≠ s'.state := by
      rw [hbefore, hafter]
      decide
    obtain ⟨effect, hmove⟩ := hchange.move_of_ne hs hs' hne
    obtain ⟨signed, -, hid, hacts⟩ := hmove.into_awaitingPayment hafter
    exact ⟨signed.payload, hid, signedBy_of_party hunforgeable hinjective hacts
      (hbuyers id s hs) hmove.sameTerms.buyer⟩
  case cancelled =>
    intro signed hevent
    dsimp only at hevent
    simp only [step, hevent, mapError_ok] at hstep
    obtain ⟨s, hacts, -⟩ := applyCancelled_ok.mp hstep
    obtain ⟨hbuyer, -, hparty⟩ := signedBy_of_canceller hunforgeable hinjective hbuyers hacts
    exact ⟨s, hacts.found, hparty, hbuyer⟩
  case ended =>
    intro id s s' hs hs' hbefore hafter
    obtain ⟨effect, hmove⟩ := hchange.move_of_ne hs hs' fun h => hbefore (h.trans hafter)
    exact hmove.into_cancelled hafter

theorem step_sellerAuthority {input : Input} (hbuyers : BuyersBound p w)
    (hseller : SellerBound p id w) (hstep : step p w input = .ok w') :
    SellerAuthority p Signs ⟨w, input, w'⟩ id := by
  have hchange := step_change hstep
  constructor
  case approved | rejected =>
    intro s s' hs hs' hbefore hafter
    obtain ⟨effect, hmove⟩ := hchange.move_of_ne hs hs' fun h => hbefore (h.trans hafter)
    have hterms := hmove.sameTerms
    obtain ⟨now, event⟩ := input
    cases hmove with
    | approved signed hid hacts | rejected signed hid hacts =>
      first
      | cases hafter; done
      | exact ⟨signed.payload, hid, signedBy_of_party hunforgeable hinjective hacts
        (hseller s hs) hterms.seller⟩
    | resolved _ verdict => cases verdict <;> cases hafter
    | _ => cases hafter
  case cancelled =>
    intro signed s hevent hid hs hcanceller
    dsimp only at hevent hs
    simp only [step, hevent, mapError_ok] at hstep
    obtain ⟨s₀, hacts, -⟩ := applyCancelled_ok.mp hstep
    have hfound := hacts.found
    rw [hid, hs] at hfound
    obtain rfl := Option.some.inj hfound
    obtain ⟨-, hsigned, -⟩ := signedBy_of_canceller hunforgeable hinjective hbuyers hacts
    exact hsigned hcanceller (hseller s hs)

end Signatures

/-- With unforgeable signatures and peer ids that determine their keys: in every run, every
settlement is created, paid, reversed and cancelled in the buyer's name by the buyer that its
record names; and it is approved, rejected and cancelled in the seller's name by the seller
that its record names, if the accepted initiate payload of that settlement gave the seller's
key. -/
theorem settlement_party_authority (p : NodePlatform) (Signs : PublicKey → Statement → Prop)
    (hunforgeable : ∀ key statement signature, p.verify key statement signature = true →
      Signs key statement)
    (hinjective : ∀ key key' peer, p.peerIdFromPublicKey key = some peer →
      p.peerIdFromPublicKey key' = some peer → key = key')
    (inputs : List Input) :
    (∀ t ∈ transitions (step p) emptyNode inputs, BuyerAuthority p Signs t) ∧
    ∀ id, (∀ t ∈ transitions (step p) emptyNode inputs, BindsSeller p id t.label.event) →
      ∀ t ∈ transitions (step p) emptyNode inputs, SellerAuthority p Signs t id := by
  have hbuyers (t : Transition Node Input) (ht : t ∈ transitions (step p) emptyNode inputs) :
      BuyersBound p t.before := by
    have hempty : BuyersBound p emptyNode := fun id s hs => by cases hs
    exact (invariant_of_mem (G := fun _ => True)
      (fun w input w' h hstep _ => Change.buyersBound (step_change hstep) h) hempty
      (fun _ _ => trivial) ht).1
  refine ⟨fun t ht => ?_, fun id hbinds t ht => ?_⟩
  · exact step_buyerAuthority hunforgeable hinjective (hbuyers t ht) (step_of_mem ht)
  · have hempty : SellerBound p id emptyNode := fun s hs => by cases hs
    obtain ⟨hseller, hstep⟩ := invariant_of_mem (G := fun t => BindsSeller p id t.label.event)
      (fun w input w' h hstep hbinds => Change.sellerBound (step_change hstep) hbinds h) hempty
      hbinds ht
    exact step_sellerAuthority hunforgeable hinjective (hbuyers t ht) hseller hstep

/-! One trade with the seller's own key in the initiate payload, and the same trade with the
buyer's key in its place. -/

def tradeInitiate (sellerKey : PublicKey) : SettlementInitiate where
  id := ⟨"settle-1"⟩
  reservationId := ⟨"res-1"⟩
  buyer := peer 2
  buyerPublicKey := .filled 2
  seller := peer 3
  sellerPublicKey := sellerKey
  amount := .new 2000000 6
  timestamp := 1000

def tradePaid : PaymentSubmitted := ⟨⟨"settle-1"⟩, peer 2, some "MPESA-1", 2000⟩

def tradeApproval : SettlementApproved := ⟨⟨"settle-1"⟩, peer 3, 3000⟩

/-- Who signed what: the approval is signed with the key that was given for the seller. -/
def tradeSignatures (sellerKey : PublicKey) : List (PublicKey × Statement) :=
  [(.filled 2, .settlementInitiate (tradeInitiate sellerKey)),
    (.filled 2, .paymentSubmitted tradePaid), (sellerKey, .settlementApproved tradeApproval)]

def tradePlatform (sellerKey : PublicKey) : NodePlatform :=
  signedPlatform (tradeSignatures sellerKey)

def approvalInput : Input := ⟨3000, .settlementApproved ⟨tradeApproval, ⟨[]⟩⟩⟩

def saleDispute : DisputeOpen where
  id := ⟨"dispute-1"⟩
  settlementId := ⟨"settle-1"⟩
  opener := peer 3
  openerPublicKey := .filled 3
  reason := "payment recalled"
  timestamp := 4000

def paidInputs (sellerKey : PublicKey) : List Input :=
  [⟨1000, .settlementInitiated ⟨tradeInitiate sellerKey, ⟨[]⟩⟩⟩,
    ⟨2000, .paymentSubmitted ⟨tradePaid, ⟨[]⟩⟩⟩]

def tradeInputs (sellerKey : PublicKey) : List Input := paidInputs sellerKey ++ [approvalInput]

theorem signedPlatform_unforgeable (signatures : List (PublicKey × Statement)) (key : PublicKey)
    (statement : Statement) (signature : Signature)
    (h : (signedPlatform signatures).verify key statement signature = true) :
    (key, statement) ∈ signatures := of_decide_eq_true h

theorem signedPlatform_injective (signatures : List (PublicKey × Statement))
    (key key' : PublicKey) (peer : PeerId)
    (h : (signedPlatform signatures).peerIdFromPublicKey key = some peer)
    (h' : (signedPlatform signatures).peerIdFromPublicKey key' = some peer) : key = key' := by
  have hpeers := Option.some.inj (h.trans h'.symm)
  cases key
  cases hpeers
  rfl

theorem settlement_party_authority_honest :
    ((run (step (tradePlatform (.filled 3))) emptyNode
        (tradeInputs (.filled 3))).settlements.lookup ⟨"settle-1"⟩).map Settlement.state =
      some .approved ∧
    ∀ t ∈ transitions (step (tradePlatform (.filled 3))) emptyNode (tradeInputs (.filled 3)),
      BuyerAuthority (tradePlatform (.filled 3))
        (fun key statement => (key, statement) ∈ tradeSignatures (.filled 3)) t ∧
      SellerAuthority (tradePlatform (.filled 3))
        (fun key statement => (key, statement) ∈ tradeSignatures (.filled 3)) t ⟨"settle-1"⟩ := by
  obtain ⟨hbuyer, hseller⟩ := settlement_party_authority (tradePlatform (.filled 3)) _
    (signedPlatform_unforgeable _) (signedPlatform_injective _) (tradeInputs (.filled 3))
  refine ⟨by decide +kernel, fun t ht => ⟨hbuyer t ht, ?_⟩⟩
  exact hseller ⟨"settle-1"⟩ (by decide +kernel) t ht

/-- The buyer approves the payment: the seller, whose key signed nothing, is named by the
record. -/
theorem buyer_approves_as_seller :
    (∀ key statement signature,
      (tradePlatform (.filled 2)).verify key statement signature = true →
        (key, statement) ∈ tradeSignatures (.filled 2)) ∧
    (∀ key key' peer, (tradePlatform (.filled 2)).peerIdFromPublicKey key = some peer →
      (tradePlatform (.filled 2)).peerIdFromPublicKey key' = some peer → key = key') ∧
    ¬ ∀ t ∈ transitions (step (tradePlatform (.filled 2))) emptyNode (tradeInputs (.filled 2)),
      SellerAuthority (tradePlatform (.filled 2))
        (fun key statement => (key, statement) ∈ tradeSignatures (.filled 2)) t ⟨"settle-1"⟩ := by
  refine ⟨signedPlatform_unforgeable _, signedPlatform_injective _, fun h => ?_⟩
  have hlast := h _ (last_mem_transitions (by decide +kernel))
  obtain ⟨action, -, -, -, hsigned⟩ := hlast.approved
    (markSubmitted (newSettlement (tradeInitiate (.filled 2))) tradePaid)
    (markApproved (markSubmitted (newSettlement (tradeInitiate (.filled 2))) tradePaid)
      tradeApproval) (by decide +kernel) (by decide +kernel) (by decide) rfl
  have hvictim := hsigned (.filled 3) rfl
  have hkey : PublicKey.filled 3 = .filled 2 := by
    simp only [tradeSignatures, List.mem_cons, Prod.mk.injEq, List.not_mem_nil, or_false] at hvictim
    rcases hvictim with ⟨hkey, -⟩ | ⟨hkey, -⟩ | ⟨hkey, -⟩ <;> exact hkey
  exact absurd hkey (by decide)

end OpenFiat.SettlementAuthority
